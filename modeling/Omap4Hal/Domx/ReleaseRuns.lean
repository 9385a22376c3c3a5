import Omap4Hal.Domx.Release

/- What the proxy gives back, over whole runs. At any time what has been taken is what has
   been given back and what `PROXY_FreeBuffer` would give back for the slots in use
   (`ReleaseInv`); `PROXY_ComponentDeInit` goes through these slots.

   `released_iff` is the result: with `ion_fd` closed first, all is well exactly if no slot
   has ion memory any more. -/
namespace Omap4Hal.Domx
open Lib
open List (append_nil count_append count_cons count_nil flatMap_append flatMap_cons map_append
  mem_cons_of_mem mem_map range)
open Proxy

def takenBy (deeds : List Deed) : List Thing := deeds.flatMap Deed.taken
def givenBy (deeds : List Deed) : List Thing := deeds.flatMap Deed.given

@[simp] theorem takenBy_append (l l' : List Deed) : takenBy (l ++ l') = takenBy l ++ takenBy l' :=
  flatMap_append

@[simp] theorem givenBy_append (l l' : List Deed) : givenBy (l ++ l') = givenBy l ++ givenBy l' :=
  flatMap_append

@[simp] theorem ionSetup_useIonBuild (b : Bool) : (ionSetup b).useIonBuild = true := rfl
@[simp] theorem ionSetup_bUseIon (b : Bool) : (ionSetup b).bUseIon = true := rfl
@[simp] theorem ionSetup_bMapIonBuffers (b : Bool) : (ionSetup b).bMapIonBuffers = b := rfl
@[simp] theorem ionSetup_maps (b : Bool) : (ionSetup b).maps = b := rfl

/-! ## What the slots hold -/

/-- What `PROXY_FreeBuffer` would give back for a slot. -/
def slotThings (cfg : Config) (s : Proxy) (i : Nat) : List Thing :=
  if s.occupied i then
    match s.heap (s.tBufList i).pBufHeader with
    | some h => givenBy (slotFrees cfg (s.tBufList i) h)
    | none => []
  else []

def heldThings (cfg : Config) (s : Proxy) : List Thing :=
  (range maxNumProxyBuffers).flatMap (slotThings cfg s)

variable {cfg : Config} {s s' : Proxy} {i : Nat} {h : BufHeader} {w : Release} {pBuffer p : UInt32}
  {e : UseEnv} {b hasPtr : Bool}

theorem slotThings_eq (hocc : s.occupied i = true)
    (hheap : s.heap (s.tBufList i).pBufHeader = some h) :
    slotThings cfg s i = givenBy (slotFrees cfg (s.tBufList i) h) := by
  rw [slotThings, if_pos hocc, hheap]

theorem slotThings_nil (hocc : s.occupied i = false) :
    slotThings cfg s i = [] := by
  rw [slotThings, if_neg (by simp [hocc])]

theorem slotThings_congr (hslot : s'.tBufList i = s.tBufList i)
    (hheap : s.occupied i = true →
      s'.heap (s.tBufList i).pBufHeader = s.heap (s.tBufList i).pBufHeader)
    :
    slotThings cfg s' i = slotThings cfg s i := by
  have hocc : s'.occupied i = s.occupied i := by rw [occupied, hslot, occupied]
  rw [slotThings, slotThings, hocc, hslot]
  split
  · next ho => rw [hheap ho]
  · rfl

structure ReleaseInv (cfg : Config) (w : Release) : Prop where
  table : TableSound w.proxy
  clean : ∀ i, w.proxy.occupied i = false → (w.proxy.tBufList i).pYBuffer = 0
  books : Balanced (takenBy (w.log.map Prod.fst)) (givenBy (w.log.map Prod.fst))
    (heldThings cfg w.proxy)
  isOpen : w.ionOpen = true
  flags : ∀ d ∈ w.log, d.2 = true

theorem ReleaseInv.did (h : ReleaseInv cfg w) {deeds : List Deed} (htable : TableSound s)
    (hclean : ∀ i, s.occupied i = false → (s.tBufList i).pYBuffer = 0)
    (hbooks : Balanced (takenBy (w.log.map Prod.fst) ++ takenBy deeds)
      (givenBy (w.log.map Prod.fst) ++ givenBy deeds) (heldThings cfg s))
    :
    ReleaseInv cfg (w.did deeds s) := by
  have hlog : (w.did deeds s).log.map Prod.fst = w.log.map Prod.fst ++ deeds := by
    simp [Release.did, Function.comp_def]
  refine ⟨htable, hclean, ?_, h.isOpen, ?_⟩
  · rw [hlog, takenBy_append, givenBy_append]
    exact hbooks
  · intro d hd
    rcases List.mem_append.mp hd with hd | hd
    · exact h.flags d hd
    · obtain ⟨d', -, rfl⟩ := mem_map.mp hd
      exact h.isOpen

/-! ## Registering -/

/-- The second half of `freeReqs`. -/
def metaReqs (cfg : Config) (b : ProxyBufferInfo) (h : BufHeader) : List MemReq :=
  if h.pMetaDataBuffer = 0 then []
  else if cfg.useIonBuild then
    ionRelease cfg h.pMetaDataBuffer h.nMetaDataSize b.mmapFdMetadataBuff b.pMetaDataBuffer
  else [.memMgrFree h.pMetaDataBuffer]

/-- A `PROXY_UseBuffer` that succeeds stores the header `p`. -/
structure Used (cfg : Config) (s : Proxy) (pBuffer : UInt32) (e : UseEnv) (p : UInt32)
    (r : UseResult) : Prop where
  found : s.malloc e.hdrAddr = some p
  err : r.err = .none
  hdr : r.hdr = some p
  slot : (r.st.tBufList s.emptySlot).pBufHeader = p
  pYBuffer : (r.st.tBufList s.emptySlot).pYBuffer = (s.tBufList s.emptySlot).pYBuffer
  others : ∀ j, j ≠ s.emptySlot → r.st.tBufList j = s.tBufList j
  heapOthers : ∀ q, q ≠ p → r.st.heap q = s.heap q
  header : ∃ h, r.st.heap p = some h ∧ h.fields.nAllocLen = e.reply.nAllocLen ∧
    givenBy (r.reqs.map .mem) = [] ∧
    (takenBy (r.reqs.map .mem)).Perm
      (givenBy ((metaReqs cfg (r.st.tBufList s.emptySlot) h).map .mem))

theorem Used.store {t : Proxy} {remote : UInt32} {slot : Option Nat} {reqs : List MemReq}
    (hp : s.malloc e.hdrAddr = some p)
    (hY : (t.tBufList s.emptySlot).pYBuffer = (s.tBufList s.emptySlot).pYBuffer)
    (hothers : ∀ j, j ≠ s.emptySlot → t.tBufList j = s.tBufList j)
    (hheap : ∀ q, q ≠ p → t.heap q = s.heap q) (hlen : h.fields.nAllocLen = e.reply.nAllocLen)
    (hgiven : givenBy (reqs.map .mem) = [])
    (htaken : (takenBy (reqs.map .mem)).Perm
      (givenBy ((metaReqs cfg (t.tBufList s.emptySlot) h).map .mem)))
    :
    Used cfg s pBuffer e p
      ⟨storeHeader (t.setHeader p (some h)) s.emptySlot p remote, .none, some p, slot, reqs⟩ := by
  have hslot : ((storeHeader (t.setHeader p (some h)) s.emptySlot p remote).tBufList
      s.emptySlot) =
      { t.tBufList s.emptySlot with pBufHeader := p, pBufHeaderRemote := remote } := by
    simp [storeHeader]
  refine ⟨hp, rfl, rfl, by rw [hslot], by rw [hslot]; exact hY, ?_, ?_, ?_⟩
  · intro j hj
    exact (setSlot_ne _ _ hj).trans (hothers j hj)
  · intro q hq
    exact (Function.update_of_ne hq _ _).trans (hheap q hq)
  · refine ⟨h, Function.update_self .., hlen, hgiven, ?_⟩
    rw [hslot]
    exact htaken

theorem proxyUseBuffer_used (hs : UseSucceeds (ionSetup b) s e)
    (hroom : s.nTotalBuffers < maxNumProxyBuffers) (hp : s.malloc e.hdrAddr = some p)
    (pBuffer : UInt32) :
    Used (ionSetup b) s pBuffer e p (proxyUseBuffer (ionSetup b) s true pBuffer e) := by
  have hchk : useChecks s true e = .ok p := useChecks_eq_ok.mpr
    ⟨rfl, hroom, hp, hs.platform, hs.stride, fun _ => hs.numLines, hs.metaInfo⟩
  have hans : e.answered = true := by simp [UseEnv.answered, hs.rpc, hs.comp]
  have hrpc : checkRpcError e.rpc e.comp = (.none, false) := by
    rw [hs.rpc, hs.comp]
    rfl
  have hlen : (useHeader (ionSetup b) pBuffer e).fields.nAllocLen = e.reply.nAllocLen := by
    simp [useHeader, hans]
  cases hmeta : e.metaEnabled with
  | false =>
    have heq : proxyUseBuffer (ionSetup b) s true pBuffer e =
        ⟨storeHeader (s.setHeader p (some (useHeader (ionSetup b) pBuffer e))) s.emptySlot p
          e.remoteHdr, .none, some p, some s.emptySlot, []⟩ := by
      simp [proxyUseBuffer, hchk, hmeta, hrpc, noteMetaData, useFinish, hans, useMetaReqs]
    rw [heq]
    refine .store hp rfl (fun _ _ => rfl) (fun _ _ => rfl) hlen rfl ?_
    simp [metaReqs, useHeader, useMetaData, hmeta, takenBy, givenBy]
  | true =>
    obtain ⟨hd, hhd, hne⟩ := hs.metaHandle hmeta
    -- the slot has the handle
    obtain ⟨t, ht⟩ : ∃ t, t = s.setSlot s.emptySlot
        { s.tBufList s.emptySlot with pMetaDataBuffer := hd } := ⟨_, rfl⟩
    have hnote : noteMetaData (ionSetup b) s e = t := by
      simp [noteMetaData, hmeta, useMetaData, hhd, ht]
    have hothers : ∀ j, j ≠ s.emptySlot → t.tBufList j = s.tBufList j := by
      intro j hj
      rw [ht, setSlot_ne _ _ hj]
    cases b with
    | false =>
      have heq : proxyUseBuffer (ionSetup false) s true pBuffer e =
          ⟨storeHeader (t.setHeader p (some (useHeader (ionSetup false) pBuffer e))) s.emptySlot p
            e.remoteHdr, .none, some p, some s.emptySlot,
            [.ionAlloc (roundToPage e.metaSize) (some hd)]⟩ := by
        simp [proxyUseBuffer, hchk, hmeta, hrpc, hnote, useFinish, hans, useMetaReqs, hhd]
      rw [heq]
      refine .store hp (by rw [ht, setSlot_self]) hothers (by rw [ht]; exact fun _ _ => rfl) hlen
        rfl ?_
      simp [metaReqs, useHeader, useMetaData, hmeta, hhd, hne, ionRelease, takenBy,
        givenBy, Deed.taken, Deed.given, ht]
    | true =>
      obtain ⟨addr, fd, hmap, haddr⟩ := hs.metaMapped rfl hmeta
      have heq : proxyUseBuffer (ionSetup true) s true pBuffer e =
          ⟨storeHeader ((t.setSlot s.emptySlot
              { t.tBufList s.emptySlot with mmapFdMetadataBuff := fd }).setHeader p
              (some { useHeader (ionSetup true) pBuffer e with pMetaDataBuffer := addr }))
            s.emptySlot p e.remoteHdr, .none, some p, some s.emptySlot,
            [.ionAlloc (roundToPage e.metaSize) (some hd),
              .ionMap hd (roundToPage e.metaSize) (some (addr, fd))]⟩ := by
        simp [proxyUseBuffer, hchk, hmeta, hrpc, hnote, useFinish, hans, useMetaReqs, hhd, hmap,
          useHeader, useMetaData]
      rw [heq]
      refine .store hp ?_ ?_ (by rw [ht]; exact fun _ _ => rfl) hlen rfl ?_
      · rw [setSlot_self, ht, setSlot_self]
      · intro j hj
        rw [setSlot_ne _ _ hj, hothers j hj]
      · refine List.Perm.trans
          (List.perm_append_singleton (Thing.handle hd)
            [.mapping addr (roundToPage e.metaSize), .descriptor fd]).symm (.of_eq ?_)
        simp [metaReqs, useHeader, useMetaData, hmeta, haddr, ionRelease, givenBy, Deed.given, ht]

theorem proxyUseBuffer_turned (cfg : Config)
    (hno : hasPtr = false ∨ ¬ s.nTotalBuffers < maxNumProxyBuffers) (pBuffer : UInt32)
    (e : UseEnv) :
    ∃ err, err ≠ .none ∧
      proxyUseBuffer cfg s hasPtr pBuffer e = ⟨s, err, none, none, []⟩ := by
  have hchk : ∃ err, err ≠ OmxError.none ∧ useChecks s hasPtr e = .error err := by
    rcases hno with hno | hno
    · exact ⟨.badParameter, by simp, by simp [useChecks, hno]⟩
    · cases hasPtr with
      | false => exact ⟨.badParameter, by simp, by simp [useChecks]⟩
      | true => exact ⟨.insufficientResources, by simp, by simp [useChecks, hno]⟩
  obtain ⟨err, herr, heq⟩ := hchk
  refine ⟨err, herr, ?_⟩
  rw [proxyUseBuffer, heq]

theorem useDeeds_turned (hno : hasPtr = false ∨ ¬ s.nTotalBuffers < maxNumProxyBuffers)
    (pBuffer : UInt32) (e : UseEnv) : useDeeds cfg s hasPtr pBuffer e = [] := by
  obtain ⟨err, -, heq⟩ := proxyUseBuffer_turned cfg hno pBuffer e
  rw [useDeeds, heq, useMallocs, if_pos hno]
  rfl

/-- A registration that succeeds takes the two blocks of the header and what belongs to the
metadata buffer. -/
theorem useDeeds_used (hs : UseSucceeds cfg s e) (hroom : s.nTotalBuffers < maxNumProxyBuffers)
    (hused : Used cfg s pBuffer e p (proxyUseBuffer cfg s true pBuffer e)) :
    givenBy (useDeeds cfg s true pBuffer e) = [] ∧
      takenBy (useDeeds cfg s true pBuffer e) = [.header p, .platform p] ++
        takenBy ((proxyUseBuffer cfg s true pBuffer e).reqs.map .mem) := by
  have hmallocs : useMallocs s true e = [.header p, .platform p] := by
    simp [useMallocs, hroom, hused.found, hs.platform]
  obtain ⟨h, hheap, -, hgiven, -⟩ := hused.header
  have hlive : (proxyUseBuffer cfg s true pBuffer e).st.live p = true := by
    simp [live, hheap]
  have hdeeds : useDeeds cfg s true pBuffer e = [.malloc (.header p), .malloc (.platform p)] ++
      (proxyUseBuffer cfg s true pBuffer e).reqs.map .mem := by
    simp [useDeeds, hmallocs, Thing.owner, hlive]
  rw [hdeeds, takenBy_append, givenBy_append, hgiven]
  exact ⟨rfl, rfl⟩

/-! ## Slots that are filled and cleared -/

theorem heldThings_fill (cfg : Config) {k : Nat} (hk : k < maxNumProxyBuffers)
    (hempty : s.occupied k = false) (hocc : s'.occupied k = true)
    (hheap : s'.heap (s'.tBufList k).pBufHeader = some h)
    (hothers : ∀ j, j ≠ k → slotThings cfg s' j = slotThings cfg s j) :
    (heldThings cfg s').Perm (heldThings cfg s ++ givenBy (slotFrees cfg (s'.tBufList k) h)) := by
  rw [← slotThings_eq hocc hheap]
  exact flatMap_range_fill hk (slotThings_nil hempty) hothers

theorem emptySlot_lt (hroom : s.nTotalBuffers < maxNumProxyBuffers) :
    s.emptySlot < maxNumProxyBuffers := by
  rcases firstFree_cases s.occupied s.nTotalBuffers with ⟨hlt, -⟩ | ⟨heq, -⟩
  · exact Nat.lt_trans hlt hroom
  · exact Nat.lt_of_le_of_lt (Nat.le_of_eq heq) hroom

theorem heldThings_store (cfg : Config) (hs : TableSound s)
    (hroom : s.nTotalBuffers < maxNumProxyBuffers) (hp : p ≠ 0) (hfresh : s.live p = false)
    (hslot : (s'.tBufList s.emptySlot).pBufHeader = p) (hheap : s'.heap p = some h)
    (hothers : ∀ j, j ≠ s.emptySlot → s'.tBufList j = s.tBufList j)
    (hkept : ∀ q, q ≠ p → s'.heap q = s.heap q) :
    (heldThings cfg s').Perm
      (heldThings cfg s ++ givenBy (slotFrees cfg (s'.tBufList s.emptySlot) h)) := by
  apply heldThings_fill cfg (emptySlot_lt hroom) hs.tally.firstFree_free
  · simp [occupied, hslot, hp]
  · rw [hslot]
    exact hheap
  · intro j hj
    refine slotThings_congr (hothers j hj) ?_
    intro hocc
    apply hkept
    intro heq
    have hlive := hs.live j hocc
    rw [heq, hfresh] at hlive
    cases hlive

theorem heldThings_clear (cfg : Config) (hi : i < maxNumProxyBuffers) (hocc : s.occupied i = true)
    (hunique : ∀ j, (s.tBufList j).pBufHeader = (s.tBufList i).pBufHeader → j = i)
    (hheap : s.heap (s.tBufList i).pBufHeader = some h) (hcleared : s'.tBufList i = .zero)
    (hothers : ∀ j, j ≠ i → s'.tBufList j = s.tBufList j)
    (hkept : ∀ q, q ≠ (s.tBufList i).pBufHeader → s'.heap q = s.heap q) :
    (heldThings cfg s).Perm (heldThings cfg s' ++ givenBy (slotFrees cfg (s.tBufList i) h)) := by
  apply heldThings_fill cfg hi
  · simp [occupied, hcleared, ProxyBufferInfo.zero]
  · exact hocc
  · exact hheap
  · intro j hj
    refine (slotThings_congr (hothers j hj) ?_).symm
    intro _
    apply hkept
    intro heq
    exact hj (hunique j heq)

/-! ## The calls -/

theorem slotFrees_eq (b : Bool) (i : ProxyBufferInfo) (h : BufHeader) :
    givenBy (slotFrees (ionSetup b) i h) =
      (if i.pYBuffer = 0 then []
        else givenBy ((ionRelease (ionSetup b) h.fields.pBuffer h.fields.nAllocLen i.mmapFd
          i.pYBuffer).map .mem)) ++
      givenBy ((metaReqs (ionSetup b) i h).map .mem) ++
      [.platform i.pBufHeader, .header i.pBufHeader] := by
  rw [slotFrees, freeReqs, map_append, givenBy_append, givenBy_append]
  congr 2
  split <;> simp [givenBy]

theorem useBuffer_inv (hw : ReleaseInv (ionSetup b) w) (hs : UseSucceeds (ionSetup b) w.proxy e) :
    ReleaseInv (ionSetup b) (w.did (useDeeds (ionSetup b) w.proxy hasPtr pBuffer e)
      (proxyUseBuffer (ionSetup b) w.proxy hasPtr pBuffer e).st) := by
  by_cases hno : hasPtr = false ∨ ¬ w.proxy.nTotalBuffers < maxNumProxyBuffers
  · obtain ⟨err, -, heq⟩ := proxyUseBuffer_turned (ionSetup b) hno pBuffer e
    rw [heq, useDeeds_turned hno]
    apply hw.did hw.table hw.clean
    simpa [takenBy, givenBy] using hw.books
  push Not at hno
  obtain ⟨hptr, hroom⟩ := hno
  obtain rfl : hasPtr = true := by simpa using hptr
  obtain ⟨p, hp⟩ := Option.ne_none_iff_exists'.mp hs.header
  obtain ⟨hp0, hfresh⟩ := malloc_eq_some hp
  have hused := proxyUseBuffer_used hs hroom hp pBuffer
  obtain ⟨hgiven, htaken⟩ := useDeeds_used hs hroom hused
  have hstep : step (ionSetup b) w.proxy (.useBuffer true pBuffer e) =
      some (proxyUseBuffer (ionSetup b) w.proxy true pBuffer e).st := rfl
  have hok : CallOk (ionSetup b) w.proxy (.useBuffer true pBuffer e) :=
    fun _ => ⟨hs.rpc, by simp [hs.comp]⟩
  have htable := step_sound hw.table hok hstep
  generalize proxyUseBuffer (ionSetup b) w.proxy true pBuffer e = r at *
  obtain ⟨h, hheap, -, -, hperm⟩ := hused.header
  have hY : (r.st.tBufList w.proxy.emptySlot).pYBuffer = 0 := by
    rw [hused.pYBuffer]
    exact hw.clean _ hw.table.tally.firstFree_free
  apply hw.did htable
  · intro i hi
    by_cases hslot : i = w.proxy.emptySlot
    · rw [hslot]
      exact hY
    · rw [hused.others i hslot]
      apply hw.clean
      simpa [occupied, hused.others i hslot] using hi
  · have hheld := heldThings_store (ionSetup b) hw.table hroom hp0 hfresh hused.slot hheap
      hused.others hused.heapOthers
    refine (hw.books.append ?_).congr hheld.symm
    rw [Lib.Balanced, hgiven, htaken, slotFrees_eq, if_pos hY, hused.slot]
    refine List.perm_iff_count.mpr fun t => ?_
    have hcount := hperm.count_eq t
    simp only [count_append, count_cons, count_nil] at hcount ⊢
    omega

/-- The end of a `PROXY_AllocateBuffer` that succeeds: the slot has the handle, and the header
the address if the buffer is mapped. -/
structure Filled (cfg : Config) (s : Proxy) (p hd : UInt32) (u : UseResult) (r : AllocResult) :
    Prop where
  slot : (r.st.tBufList s.emptySlot).pBufHeader = p
  pYBuffer : (r.st.tBufList s.emptySlot).pYBuffer = hd
  others : ∀ j, j ≠ s.emptySlot → r.st.tBufList j = s.tBufList j
  heapOthers : ∀ q, q ≠ p → r.st.heap q = s.heap q
  header : ∃ h, r.st.heap p = some h ∧ givenBy (r.reqs.map .mem) = [] ∧
    (Thing.handle hd :: (takenBy (u.reqs.map .mem) ++ takenBy (r.reqs.map .mem))).Perm
      (givenBy ((ionRelease cfg h.fields.pBuffer h.fields.nAllocLen
          (r.st.tBufList s.emptySlot).mmapFd hd).map .mem) ++
        givenBy ((metaReqs cfg (r.st.tBufList s.emptySlot) h).map .mem))

theorem allocFinish_filled {hd nSize : UInt32} {u : UseResult} {e : AllocEnv}
    (hused : Used (ionSetup b) s hd e.use p u) (hlen : e.use.reply.nAllocLen = nSize)
    (hmap : (ionSetup b).maps = true → ∃ addr fd, e.map = some (addr, fd)) :
    Filled (ionSetup b) s p hd u (allocFinish (ionSetup b) u.st s.emptySlot hd nSize u e) := by
  obtain ⟨h, hheap, hh, hgiven, hperm⟩ := hused.header
  cases b with
  | false =>
    have heq : allocFinish (ionSetup false) u.st s.emptySlot hd nSize u e =
        ⟨u.st.setSlot s.emptySlot { u.st.tBufList s.emptySlot with pYBuffer := hd }, .none, u.hdr,
          u.stored, some s.emptySlot, []⟩ := by
      simp [allocFinish]
    rw [heq]
    refine ⟨?_, ?_, ?_, hused.heapOthers, h, hheap, rfl, ?_⟩
    · simpa using hused.slot
    · simp
    · intro j hj
      exact (setSlot_ne _ _ hj).trans (hused.others j hj)
    · refine List.Perm.trans (.cons _ ?_) (.of_eq (List.singleton_append ..).symm)
      simpa [takenBy, metaReqs] using hperm
  | true =>
    obtain ⟨addr, fd, hmapped⟩ := hmap rfl
    obtain ⟨t, ht⟩ : ∃ t, t = u.st.setSlot s.emptySlot
        { u.st.tBufList s.emptySlot with pYBuffer := hd, mmapFd := fd } := ⟨_, rfl⟩
    have heq : allocFinish (ionSetup true) u.st s.emptySlot hd nSize u e =
        ⟨t.setHeader p (some { h with fields := { h.fields with pBuffer := addr } }), .none, u.hdr,
          u.stored, some s.emptySlot, [.ionMap hd nSize (some (addr, fd))]⟩ := by
      simp [allocFinish, hmapped, hused.hdr, ht, setSlot, hheap, Function.update_idem]
    rw [heq]
    refine ⟨?_, ?_, ?_, ?_, _, Function.update_self .., rfl, ?_⟩
    · rw [setHeader_tBufList, ht, setSlot_self]
      exact hused.slot
    · rw [setHeader_tBufList, ht, setSlot_self]
    · intro j hj
      rw [setHeader_tBufList, ht, setSlot_ne _ _ hj, hused.others j hj]
    · intro q hq
      rw [ht]
      exact (Function.update_of_ne hq _ _).trans (hused.heapOthers q hq)
    · have hmeta : metaReqs (ionSetup true)
          ((t.setHeader p (some { h with fields := { h.fields with pBuffer := addr } })).tBufList
            s.emptySlot) { h with fields := { h.fields with pBuffer := addr } } =
          metaReqs (ionSetup true) (u.st.tBufList s.emptySlot) h := by
        simp [metaReqs, ht]
      have hfd : ((t.setHeader p
          (some { h with fields := { h.fields with pBuffer := addr } })).tBufList
            s.emptySlot).mmapFd = fd := by
        rw [setHeader_tBufList, ht, setSlot_self]
      rw [hmeta, hfd, hh, hlen]
      refine List.perm_iff_count.mpr fun x => ?_
      have hcount := hperm.count_eq x
      simp only [ionRelease, ionSetup_bUseIon, ionSetup_bMapIonBuffers, if_true, takenBy, givenBy,
        Deed.taken, Deed.given, List.map_cons, List.map_nil, flatMap_cons, List.flatMap_nil,
        map_append, flatMap_append, count_append, count_cons, count_nil]
        at hcount ⊢
      omega

theorem allocMemory_ion (b metaPort : Bool) (n : UInt32) {hd : UInt32} {e : AllocEnv}
    (hstride : e.strideErr = .none) (hmem : e.mem = some hd) :
    allocMemory (ionSetup b) metaPort n e =
      if e.nStride = linuxPageSize ∧ metaPort = false then (.error .notImplemented, [])
      else (.ok hd, [.ionAlloc n (some hd)]) := by
  simp [allocMemory, hstride, hmem]

theorem allocateBuffer_inv (hw : ReleaseInv (ionSetup b) w) {metaPort : Bool} {n : UInt32}
    {e : AllocEnv} (hs : AllocSucceeds (ionSetup b) w.proxy n e) :
    ReleaseInv (ionSetup b) (w.did (allocDeeds (ionSetup b) w.proxy hasPtr metaPort n e)
      (proxyAllocateBuffer (ionSetup b) w.proxy hasPtr metaPort n e).st) := by
  have hnothing : ReleaseInv (ionSetup b) (w.did [] w.proxy) := by
    apply hw.did hw.table hw.clean
    simpa [takenBy, givenBy] using hw.books
  cases hasPtr with
  | false => simpa [allocDeeds, proxyAllocateBuffer] using hnothing
  | true =>
  obtain ⟨hd, hmem, hne⟩ := hs.handle
  have halloc := allocMemory_ion b metaPort (roundToPage n) hs.stride hmem
  by_cases h2d : e.nStride = linuxPageSize ∧ metaPort = false
  · rw [if_pos h2d] at halloc
    simpa [allocDeeds, proxyAllocateBuffer, halloc] using hnothing
  rw [if_neg h2d] at halloc
  by_cases hroom : w.proxy.nTotalBuffers < maxNumProxyBuffers
  · obtain ⟨p, hp⟩ := Option.ne_none_iff_exists'.mp hs.use.header
    obtain ⟨hp0, hfresh⟩ := malloc_eq_some hp
    have hused := proxyUseBuffer_used hs.use hroom hp hd
    have hfilled := allocFinish_filled hused hs.allocLen hs.mapped
    obtain ⟨hugiven, hutaken⟩ := useDeeds_used hs.use hroom hused
    have hdeeds : allocDeeds (ionSetup b) w.proxy true metaPort n e =
        [.mem (.ionAlloc (roundToPage n) (some hd))] ++
          useDeeds (ionSetup b) w.proxy true hd e.use ++
          (allocFinish (ionSetup b) (proxyUseBuffer (ionSetup b) w.proxy true hd e.use).st
            w.proxy.emptySlot hd (roundToPage n)
            (proxyUseBuffer (ionSetup b) w.proxy true hd e.use) e).reqs.map .mem := by
      simp [allocDeeds, halloc, hused.err]
    have hst : (proxyAllocateBuffer (ionSetup b) w.proxy true metaPort n e).st =
        (allocFinish (ionSetup b) (proxyUseBuffer (ionSetup b) w.proxy true hd e.use).st
            w.proxy.emptySlot hd (roundToPage n)
            (proxyUseBuffer (ionSetup b) w.proxy true hd e.use) e).st := by
      simp [proxyAllocateBuffer, halloc, hused.err]
    have hok : CallOk (ionSetup b) w.proxy (.allocateBuffer true metaPort n e) :=
      fun _ _ _ => ⟨hs.use.rpc, by simp [hs.use.comp]⟩
    have htable := step_sound hw.table hok rfl
    rw [hst] at htable
    rw [hdeeds, hst]
    generalize allocFinish (ionSetup b) (proxyUseBuffer (ionSetup b) w.proxy true hd e.use).st
      w.proxy.emptySlot hd (roundToPage n)
      (proxyUseBuffer (ionSetup b) w.proxy true hd e.use) e = r at *
    obtain ⟨h, hheap, hgiven, hperm⟩ := hfilled.header
    apply hw.did htable
    · intro i hi
      have hslot : i ≠ w.proxy.emptySlot := by
        intro heq
        simp [heq, occupied, hfilled.slot, hp0] at hi
      rw [hfilled.others i hslot]
      apply hw.clean
      simpa [occupied, hfilled.others i hslot] using hi
    · have hheld := heldThings_store (ionSetup b) hw.table hroom hp0 hfresh hfilled.slot hheap
        hfilled.others hfilled.heapOthers
      refine (hw.books.append ?_).congr hheld.symm
      rw [Lib.Balanced, slotFrees_eq, hfilled.pYBuffer, if_neg hne, hfilled.slot, takenBy_append,
        takenBy_append, givenBy_append, givenBy_append, hgiven, hugiven, hutaken]
      refine List.perm_iff_count.mpr fun t => ?_
      have hcount := hperm.count_eq t
      simp only [takenBy, givenBy, Deed.taken, Deed.given, flatMap_cons, List.flatMap_nil,
        count_append, count_cons, count_nil] at hcount ⊢
      omega
  · -- the table is full: what ion has given is given back
    have hfull : true = false ∨ ¬ w.proxy.nTotalBuffers < maxNumProxyBuffers := .inr hroom
    obtain ⟨err, herr, huse⟩ := proxyUseBuffer_turned (ionSetup b) hfull hd e.use
    have hdeeds : allocDeeds (ionSetup b) w.proxy true metaPort n e =
        [.mem (.ionAlloc (roundToPage n) (some hd)), .mem (.ionFree hd)] := by
      simp [allocDeeds, halloc, huse, herr, useDeeds_turned hfull]
    have hst : (proxyAllocateBuffer (ionSetup b) w.proxy true metaPort n e).st = w.proxy := by
      simp [proxyAllocateBuffer, halloc, huse, herr]
    rw [hdeeds, hst]
    apply hw.did hw.table hw.clean
    exact hw.books.pass (.handle hd)

theorem takenBy_slotFrees (b : Bool) (i : ProxyBufferInfo) (h : BufHeader) :
    takenBy (slotFrees (ionSetup b) i h) = [] := by
  have hion : ∀ addr len fd hd,
      takenBy ((ionRelease (ionSetup b) addr len fd hd).map .mem) = [] := by
    intro addr len fd hd
    cases b <;> rfl
  have hmeta : takenBy ((metaReqs (ionSetup b) i h).map .mem) = [] := by
    rw [metaReqs]
    split
    · rfl
    · exact hion ..
  rw [slotFrees, freeReqs, map_append, takenBy_append, takenBy_append]
  split
  · rw [← metaReqs, hmeta]
    rfl
  · rw [if_pos (ionSetup_useIonBuild b), hion, ← metaReqs, hmeta]
    rfl

theorem freeBuffer_inv (hw : ReleaseInv (ionSetup b) w) (e : RpcEnv)
    (hs : p = 0 ∨ (w.proxy.heap p).isSome) :
    ∃ s, step (ionSetup b) w.proxy (.freeBuffer p e) = some s ∧
      ReleaseInv (ionSetup b) (w.did (freeDeeds (ionSetup b) w.proxy p) s) := by
  have hnothing : ReleaseInv (ionSetup b) (w.did [] w.proxy) := by
    apply hw.did hw.table hw.clean
    simpa [takenBy, givenBy] using hw.books
  by_cases hp : p = 0
  · refine ⟨w.proxy, by simp [step, proxyFreeBuffer, hp], ?_⟩
    simpa [freeDeeds, hp] using hnothing
  obtain ⟨h, hheap⟩ := Option.isSome_iff_exists.mp (hs.resolve_left hp)
  by_cases hver : chkVersion h.fields = .none
  swap
  · refine ⟨w.proxy, by simp [step, proxyFreeBuffer, hp, hheap, hver], ?_⟩
    simpa [freeDeeds, hp, hheap, hver] using hnothing
  cases hslot : w.proxy.slotOf p with
  | none =>
    refine ⟨w.proxy, by simp [step, proxyFreeBuffer, hp, hheap, hver, hslot], ?_⟩
    simpa [freeDeeds, hp, hheap, hver, hslot] using hnothing
  | some i =>
    obtain ⟨hhdr, hlt⟩ := slotOf_eq_some hslot
    have hocc : w.proxy.occupied i = true := by simp [occupied, hhdr, hp]
    have hdeeds : freeDeeds (ionSetup b) w.proxy p =
        slotFrees (ionSetup b) (w.proxy.tBufList i) h := by
      simp [freeDeeds, hp, hheap, hver, hslot]
    obtain ⟨s, hs'⟩ : ∃ s, s = { (w.proxy.setHeader p none).setSlot i .zero with
        nAllocatedBuffers := w.proxy.nAllocatedBuffers - 1 } := ⟨_, rfl⟩
    have hstep : step (ionSetup b) w.proxy (.freeBuffer p e) = some s := by
      simp [step, proxyFreeBuffer, hp, hheap, hver, hslot, hs']
    have hzero : s.tBufList i = .zero := by
      rw [hs']
      exact setSlot_self ..
    have hothers : ∀ j, j ≠ i → s.tBufList j = w.proxy.tBufList j := by
      intro j hj
      rw [hs']
      exact setSlot_ne _ _ hj
    have hkept : ∀ q, q ≠ p → s.heap q = w.proxy.heap q := by
      intro q hq
      rw [hs']
      exact Function.update_of_ne hq _ _
    have hok : CallOk (ionSetup b) w.proxy (.freeBuffer p e) := trivial
    refine ⟨s, hstep, ?_⟩
    rw [hdeeds]
    apply hw.did (step_sound hw.table hok hstep)
    · intro j hj
      by_cases hji : j = i
      · rw [hji, hzero]
        rfl
      · rw [hothers j hji]
        apply hw.clean
        simpa [occupied, hothers j hji] using hj
    · rw [takenBy_slotFrees, append_nil]
      apply hw.books.giveAll
      refine (heldThings_clear (ionSetup b) (Nat.lt_of_lt_of_le hlt hw.table.tally.bound) hocc
        ?_ (hhdr ▸ hheap) hzero hothers (hhdr ▸ hkept)).trans List.perm_append_comm
      intro j hj
      exact hw.table.unique i j hocc hj

theorem initial_releaseInv (b : Bool) : ReleaseInv (ionSetup b) {} := by
  refine ⟨initial_tableSound, fun _ _ => rfl, ?_, rfl, ?_⟩
  · have hheld : heldThings (ionSetup b) initial = [] := by
      refine List.flatMap_eq_nil_iff.mpr fun i _ => slotThings_nil rfl
    rw [hheld]
    exact balanced_nil
  · intro d hd
    cases hd

theorem Release.step_inv {c : Call} (hw : ReleaseInv (ionSetup b) w)
    (hs : Succeeds (ionSetup b) w c) :
    ∃ w', w.step (ionSetup b) c = some w' ∧ ReleaseInv (ionSetup b) w' := by
  cases c with
  | useBuffer hasPtr pBuffer e => exact ⟨_, rfl, useBuffer_inv hw hs⟩
  | allocateBuffer hasPtr metaPort n e => exact ⟨_, rfl, allocateBuffer_inv hw hs⟩
  | freeBuffer p e =>
    obtain ⟨s, hstep, hinv⟩ := freeBuffer_inv hw e hs
    exact ⟨_, by rw [Release.step, hstep]; rfl, hinv⟩
  | _ => exact hs.elim

/-! ## The end -/

/-- What `PROXY_ComponentDeInit` does to a slot. -/
def slotDeInit (cfg : Config) (s : Proxy) (i : Nat) : List Deed :=
  if s.occupied i then
    match s.heap (s.tBufList i).pBufHeader with
    | some h => deInitDeeds cfg (s.tBufList i) h
    | none => []
  else []

theorem deInitSlot_loop (cfg : Config) {is : List Nat} (hnodup : is.Nodup)
    (hlive : ∀ i ∈ is, w.proxy.occupied i = true → w.proxy.live (w.proxy.tBufList i).pBufHeader)
    (hunique : ∀ i ∈ is, ∀ j ∈ is, w.proxy.occupied i = true →
      (w.proxy.tBufList j).pBufHeader = (w.proxy.tBufList i).pBufHeader → j = i)
    :
    ∃ w', is.foldlM (Release.deInitSlot cfg) w = some w' ∧
      w'.log = w.log ++ (is.flatMap (slotDeInit cfg w.proxy)).map fun d => (d, w.ionOpen) := by
  induction is generalizing w with
  | nil => exact ⟨w, rfl, by simp⟩
  | cons i is ih =>
    obtain ⟨hi, hnodup⟩ := List.nodup_cons.mp hnodup
    have hlive' := fun j hj => hlive j (mem_cons_of_mem i hj)
    have hunique' := fun j hj k hk => hunique j (mem_cons_of_mem i hj) k
      (mem_cons_of_mem i hk)
    rw [List.foldlM_cons, flatMap_cons]
    by_cases hocc : w.proxy.occupied i = true
    · obtain ⟨h, hheap⟩ := Option.isSome_iff_exists.mp (hlive i List.mem_cons_self hocc)
      have hne : (w.proxy.tBufList i).pBufHeader ≠ 0 := by simpa [occupied] using hocc
      have hdeeds : slotDeInit cfg w.proxy i = deInitDeeds cfg (w.proxy.tBufList i) h := by
        rw [slotDeInit, if_pos hocc, hheap]
      obtain ⟨t, ht⟩ : ∃ t, t = (w.proxy.setHeader (w.proxy.tBufList i).pBufHeader none).setSlot i
          .zero := ⟨_, rfl⟩
      have hstep : w.deInitSlot cfg i =
          some (w.did (deInitDeeds cfg (w.proxy.tBufList i) h) t) := by
        simp [Release.deInitSlot, hne, hheap, ht]
      have hslot : ∀ j ∈ is, t.tBufList j = w.proxy.tBufList j := by
        intro j hj
        rw [ht]
        exact setSlot_ne _ _ fun heq => hi (heq ▸ hj)
      have hkept : ∀ j ∈ is, w.proxy.occupied j = true →
          t.heap (w.proxy.tBufList j).pBufHeader =
            w.proxy.heap (w.proxy.tBufList j).pBufHeader := by
        intro j hj hoccj
        rw [ht]
        refine Function.update_of_ne ?_ _ _
        intro heq
        exact hi ((hunique i List.mem_cons_self j (mem_cons_of_mem i hj) hocc heq) ▸ hj)
      have hoccs : ∀ j ∈ is, t.occupied j = w.proxy.occupied j := by
        intro j hj
        rw [occupied, hslot j hj, occupied]
      obtain ⟨w', hrun, hlog⟩ := ih hnodup (w := w.did (deInitDeeds cfg (w.proxy.tBufList i) h) t)
        (by
          intro j hj hoccj
          have hoccj' := (hoccs j hj).symm.trans hoccj
          show (t.heap (t.tBufList j).pBufHeader).isSome = true
          rw [hslot j hj, hkept j hj hoccj']
          exact hlive' j hj hoccj')
        (by
          intro j hj k hk hoccj heq
          refine hunique' j hj k hk ((hoccs j hj).symm.trans hoccj) ?_
          rw [← hslot j hj, ← hslot k hk]
          exact heq)
      have hrest : is.flatMap (slotDeInit cfg t) = is.flatMap (slotDeInit cfg w.proxy) := by
        apply List.flatMap_congr
        intro j hj
        rw [slotDeInit, slotDeInit, hoccs j hj, hslot j hj]
        split
        · next ho => rw [hkept j hj ho]
        · rfl
      refine ⟨w', by rw [hstep]; exact hrun, ?_⟩
      rw [hlog, hdeeds, map_append, ← List.append_assoc, ← hrest]
      rfl
    · have hzero : (w.proxy.tBufList i).pBufHeader = 0 := by simpa [occupied] using hocc
      have hstep : w.deInitSlot cfg i = some w := by simp [Release.deInitSlot, hzero]
      have hdeeds : slotDeInit cfg w.proxy i = [] := by rw [slotDeInit, if_neg hocc]
      obtain ⟨w', hrun, hlog⟩ := ih hnodup hlive' hunique'
      refine ⟨w', by rw [hstep]; exact hrun, ?_⟩
      rw [hlog, hdeeds, List.nil_append]

theorem componentDeInit_log (hw : ReleaseInv (ionSetup b) w) :
    ∃ w', w.componentDeInit (ionSetup b) = some w' ∧
      w'.log = w.log ++ ((range w.proxy.nTotalBuffers).flatMap
        (slotDeInit (ionSetup b) w.proxy)).map fun d => (d, false) :=
  deInitSlot_loop (ionSetup b) (w := { w with ionOpen := false }) List.nodup_range
    (fun i _ => hw.table.live i) (fun i _ j _ => hw.table.unique i j)

theorem ionFree_mem_slotDeInit (hocc : s.occupied i = true)
    (hheap : s.heap (s.tBufList i).pBufHeader = some h)
    (hion : (s.tBufList i).pYBuffer ≠ 0 ∨ h.pMetaDataBuffer ≠ 0) :
    ∃ hd, .mem (.ionFree hd) ∈ slotDeInit (ionSetup b) s i := by
  have hdeeds : slotDeInit (ionSetup b) s i = deInitDeeds (ionSetup b) (s.tBufList i) h := by
    rw [slotDeInit, if_pos hocc, hheap]
  rw [hdeeds]
  rcases hion with hY | hmeta
  · exact ⟨(s.tBufList i).pYBuffer, by simp [deInitDeeds, deInitReqs, hY, ionRelease]⟩
  · exact ⟨h.pMetaDataBuffer, by simp [deInitDeeds, deInitReqs, hmeta, ionRelease]⟩

theorem slotDeInit_of_noIonLeft (hno : NoIonLeft s) (i : Nat) :
    takenBy (slotDeInit (ionSetup b) s i) = [] ∧
      givenBy (slotDeInit (ionSetup b) s i) = slotThings (ionSetup b) s i ∧
      ∀ hd, .mem (.ionFree hd) ∉ slotDeInit (ionSetup b) s i := by
  by_cases hocc : s.occupied i = true
  · cases hheap : s.heap (s.tBufList i).pBufHeader with
    | none => simp [slotDeInit, slotThings, hocc, hheap, takenBy, givenBy]
    | some h =>
      obtain ⟨hY, hmeta⟩ := hno i h hocc hheap
      have hdeeds : slotDeInit (ionSetup b) s i = [.free (.platform (s.tBufList i).pBufHeader),
          .free (.header (s.tBufList i).pBufHeader)] := by
        simp [slotDeInit, hocc, hheap, deInitDeeds, deInitReqs, hY, hmeta]
      rw [hdeeds, slotThings_eq hocc hheap, slotFrees_eq, if_pos hY, metaReqs, if_pos hmeta]
      exact ⟨rfl, rfl, by simp⟩
  · simp [slotDeInit, slotThings, hocc, takenBy, givenBy]

theorem componentDeInit_released_iff {w' : Release} (hw : ReleaseInv (ionSetup b) w)
    (hlog : w'.log = w.log ++
      ((range w.proxy.nTotalBuffers).flatMap (slotDeInit (ionSetup b) w.proxy)).map
        fun d => (d, false))
    :
    AllReleased w' ↔ NoIonLeft w.proxy := by
  constructor
  · intro hrel i h hocc hheap
    by_contra hion
    obtain ⟨hd, hmem⟩ := ionFree_mem_slotDeInit (b := b) hocc hheap
      (by rwa [not_and_or] at hion)
    have hin : (Deed.mem (.ionFree hd), false) ∈ w'.log := by
      rw [hlog]
      refine List.mem_append_right _ (List.mem_map_of_mem ?_)
      exact List.mem_flatMap.mpr ⟨i, List.mem_range.mpr (hw.table.tally.below i hocc), hmem⟩
    have hopen := hrel.opened _ hin hd rfl
    cases hopen
  · intro hno
    have hdeeds := slotDeInit_of_noIonLeft (b := b) hno
    have htaken : takenBy ((range w.proxy.nTotalBuffers).flatMap
        (slotDeInit (ionSetup b) w.proxy)) = [] := by
      rw [takenBy, List.flatMap_assoc]
      exact List.flatMap_eq_nil_iff.mpr fun i _ => (hdeeds i).1
    have hgiven : givenBy ((range w.proxy.nTotalBuffers).flatMap
        (slotDeInit (ionSetup b) w.proxy)) = heldThings (ionSetup b) w.proxy := by
      have hrange : heldThings (ionSetup b) w.proxy = _ :=
        flatMap_range_of_le hw.table.tally.bound (f := slotThings (ionSetup b) w.proxy) (by
          intro i hi
          apply slotThings_nil
          by_contra hocc
          have hlt := hw.table.tally.below i (by simpa using hocc)
          omega)
      rw [hrange, givenBy, List.flatMap_assoc]
      exact List.flatMap_congr fun i _ => (hdeeds i).2.1
    constructor
    · have hfst : ∀ f : Deed → List Thing, w'.log.flatMap (fun d => f d.1) =
          (w.log.map Prod.fst).flatMap f ++ ((range w.proxy.nTotalBuffers).flatMap
            (slotDeInit (ionSetup b) w.proxy)).flatMap f := by
        intro f
        rw [hlog, flatMap_append, List.flatMap_map, List.flatMap_map]
      rw [hfst, hfst]
      have hheld : (heldThings (ionSetup b) w.proxy).Perm
          (heldThings (ionSetup b) w.proxy ++ []) := by
        rw [append_nil]
      have hbooks := hw.books.giveAll hheld
      rw [← hgiven] at hbooks
      rw [takenBy] at htaken
      rw [htaken, append_nil]
      exact hbooks
    · intro d hd hdl hfree
      rw [hlog] at hd
      rcases List.mem_append.mp hd with hd | hd
      · exact hw.flags d hd
      · obtain ⟨d', hd', rfl⟩ := mem_map.mp hd
        obtain ⟨i, -, hmem⟩ := List.mem_flatMap.mp hd'
        exact absurd (hfree ▸ hmem) ((hdeeds i).2.2 hdl)

/-- Whatever buffers are registered, allocated and freed, `PROXY_ComponentDeInit` ends with
everything given back as it must be exactly if no ion memory was left to it. -/
theorem released_iff (b : Bool) (calls : List Call)
    (hsucc : Guarded (Release.step (ionSetup b)) (Succeeds (ionSetup b)) {} calls) :
    ∃ w w', run (Release.step (ionSetup b)) {} calls = some w ∧
      w.componentDeInit (ionSetup b) = some w' ∧ (AllReleased w' ↔ NoIonLeft w.proxy) := by
  have hall : Always (Release.step (ionSetup b)) (ReleaseInv (ionSetup b)) {} calls := by
    apply hsucc.always (fun _ h => h) (J := ReleaseInv (ionSetup b))
    · intro w c hw hs
      exact Release.step_inv hw hs
    · exact initial_releaseInv b
  obtain ⟨w, hrun, hw⟩ := hall.last
  obtain ⟨w', hend, hlog⟩ := componentDeInit_log hw
  exact ⟨w, w', hrun, hend, componentDeInit_released_iff hw hlog⟩

/-- A mapped buffer with metadata: ion gives out the handles `0x30` and `0x40`, mapped at
`0x6000` and `0x5000`. -/
def ionAllocation : AllocEnv where
  strideErr := .none
  nStride := 0
  dimErr := .none
  portDefErr := .none
  mem := some 0x30
  use := { plainUse with
    metaEnabled := true
    metaSize := 64
    metaAlloc := some 0x40
    reply := { blankFields with nVersionMajor := 1, nVersionMinor := 1, nAllocLen := 4096 }
    metaMap := some (0x5000, 8) }
  map := some (0x6000, 7)

theorem ionAllocation_succeeds : Succeeds (ionSetup true) {} (.allocateBuffer true false 100
    ionAllocation) := by
  refine ⟨rfl, ⟨0x30, rfl, by decide⟩, ⟨by decide, rfl, rfl, rfl, rfl, ?_, ?_, rfl, rfl⟩, by decide,
    ?_⟩
  · intro _
    exact ⟨0x40, rfl, by decide⟩
  · intro _ _
    exact ⟨0x5000, 8, rfl, by decide⟩
  · intro _
    exact ⟨0x6000, 7, rfl⟩

/-- The client frees its buffer. -/
theorem released_freed :
    ∃ w w', run (Release.step (ionSetup true)) {} [.allocateBuffer true false 100 ionAllocation,
        .freeBuffer 0x1000 ⟨.none, .none⟩] = some w ∧
      w.componentDeInit (ionSetup true) = some w' ∧ AllReleased w' := by
  obtain ⟨w, w', hrun, hend, hiff⟩ := released_iff true
    [.allocateBuffer true false 100 ionAllocation, .freeBuffer 0x1000 ⟨.none, .none⟩]
    (.cons ionAllocation_succeeds rfl (.cons (.inr (by decide)) rfl trivial))
  refine ⟨w, w', hrun, hend, hiff.mpr ?_⟩
  intro i h hocc _
  cases hrun
  cases i with
  | zero => cases hocc
  | succ n => cases hocc

/-- The client leaves it to `PROXY_ComponentDeInit`: `ion_fd` is closed when the handle `0x30`
is freed, and the address `0x5000` is freed instead of the handle `0x40`. -/
theorem not_released :
    (∃ w w', run (Release.step (ionSetup true)) {} [.allocateBuffer true false 100 ionAllocation] =
        some w ∧ w.componentDeInit (ionSetup true) = some w' ∧
      (.mem (.ionFree 0x30), false) ∈ w'.log ∧ (.mem (.ionFree 0x5000), false) ∈ w'.log ∧
      ∀ d ∈ w'.log, d.1 ≠ .mem (.ionFree 0x40)) ∧
    ¬ ∀ b calls, Guarded (Release.step (ionSetup b)) (Succeeds (ionSetup b)) {} calls →
      ∃ w w', run (Release.step (ionSetup b)) {} calls = some w ∧
        w.componentDeInit (ionSetup b) = some w' ∧ AllReleased w' := by
  refine ⟨⟨_, _, rfl, rfl, by decide, by decide, by decide⟩, ?_⟩
  intro hall
  obtain ⟨w, w', hrun, hend, hrel⟩ := hall true [.allocateBuffer true false 100 ionAllocation]
    (.cons ionAllocation_succeeds rfl trivial)
  cases hrun
  cases hend
  have hopen := hrel.opened (.mem (.ionFree 0x30), false) (by decide) 0x30 rfl
  cases hopen

end Omap4Hal.Domx

import Omap4Hal.Domx.Registration

/- The limit on the number of buffers. `PROXY_UseBuffer` refuses a buffer when `nTotalBuffers`
   is at its maximum, before it looks at the slot it has found; `nTotalBuffers` is the highest
   number of buffers there has been, and `PROXY_FreeBuffer` does not lower it. So the limit is
   right until it is reached for the first time, and from then on nothing can be registered
   unless as many buffers are live again (`slotLimit_iff`).

   `Session` is the proxy with its client, who knows which headers it was given and has not
   freed. -/
namespace Omap4Hal.Domx
open Lib

/-! ## Sessions -/

structure Session where
  proxy : Proxy := .initial
  /-- The headers of the live buffers. -/
  held : List UInt32 := []
  /-- The most buffers that were live at once. -/
  peak : Nat := 0

/-- The calls that register and free, each with what the world answers. -/
inductive Request where
  | useBuffer (hasPtr : Bool) (pBuffer : UInt32) (e : UseEnv)
  | freeBuffer (p : UInt32) (e : RpcEnv)

def Session.next (w : Session) (s : Proxy) (held : List UInt32) : Session :=
  ⟨s, held, max w.peak held.length⟩

def Session.step (cfg : Config) (w : Session) : Request → Option Session
  | .useBuffer hasPtr pBuffer e =>
    let r := proxyUseBuffer cfg w.proxy hasPtr pBuffer e
    some (w.next r.st (if r.err = .none then r.hdr.toList ++ w.held else w.held))
  | .freeBuffer p e =>
    (proxyFreeBuffer cfg w.proxy p e).map fun r =>
      w.next r.st (if r.err = .none then w.held.erase p else w.held)

/-- Every allocation and every remote call of the request succeeds. -/
def Smooth (cfg : Config) (w : Session) : Request → Prop
  | .useBuffer _ _ e => UseSucceeds cfg w.proxy e
  | .freeBuffer _ e => e.rpc = .none ∧ e.comp = .none

/-- A registration fails for lack of slots if and only if the maximum of buffers is live. With
everything else going well no other failure has this error. -/
def LimitRight (cfg : Config) (w : Session) : Request → Prop
  | .useBuffer hasPtr pBuffer e =>
    (proxyUseBuffer cfg w.proxy hasPtr pBuffer e).err = .insufficientResources ↔
      w.held.length = maxNumProxyBuffers
  | .freeBuffer _ _ => True

/-- A registration with a place for the header comes before the maximum of buffers was live for
the first time, or when it is live; one without does not come when it is live. -/
def LimitFresh (w : Session) : Request → Prop
  | .useBuffer hasPtr _ _ =>
    if hasPtr then w.peak = maxNumProxyBuffers → w.held.length = maxNumProxyBuffers
    else w.held.length ≠ maxNumProxyBuffers
  | .freeBuffer _ _ => True

instance (cfg : Config) (s : Proxy) (e : UseEnv) : Decidable (UseSucceeds cfg s e) :=
  decidable_of_iff
    (s.malloc e.hdrAddr ≠ none ∧ e.platOk = true ∧ e.strideErr = .none ∧ e.numLinesErr = .none ∧
      e.metaErr = .none ∧ (e.metaEnabled = true → e.metaAlloc.any (· ≠ 0) = true) ∧
      (cfg.maps = true → e.metaEnabled = true → e.metaMap.any (·.1 ≠ 0) = true) ∧
      e.rpc = .none ∧ e.comp = .none)
    ⟨fun ⟨h₁, h₂, h₃, h₄, h₅, h₆, h₇, h₈, h₉⟩ =>
      ⟨h₁, h₂, h₃, h₄, h₅, by simpa [Option.any_eq_true] using h₆,
        by simpa [Option.any_eq_true] using h₇, h₈, h₉⟩,
    fun h => ⟨h.header, h.platform, h.stride, h.numLines, h.metaInfo,
      by simpa [Option.any_eq_true] using h.metaHandle,
      by simpa [Option.any_eq_true] using h.metaMapped, h.rpc, h.comp⟩⟩

instance (cfg : Config) (w : Session) : ∀ q, Decidable (Smooth cfg w q)
  | .useBuffer _ _ e => inferInstanceAs (Decidable (UseSucceeds cfg w.proxy e))
  | .freeBuffer _ e => inferInstanceAs (Decidable (e.rpc = .none ∧ e.comp = .none))

instance (cfg : Config) (w : Session) : ∀ q, Decidable (LimitRight cfg w q)
  | .useBuffer hasPtr pBuffer e => inferInstanceAs (Decidable
      ((proxyUseBuffer cfg w.proxy hasPtr pBuffer e).err = .insufficientResources ↔
        w.held.length = maxNumProxyBuffers))
  | .freeBuffer _ _ => inferInstanceAs (Decidable True)

/-! ## One request -/

variable {cfg : Config} {s : Proxy} {e : UseEnv} {w : Session}

theorem useSucceeds_clean (h : UseSucceeds cfg s e) :
    UseClean cfg s e := by
  refine .inl ⟨h.rpc, h.comp, fun hmaps hmeta => ?_⟩
  obtain ⟨addr, fd, heq, -⟩ := h.metaMapped hmaps hmeta
  simp [heq]

theorem useSucceeds_reaches (h : UseSucceeds cfg s e)
    (hroom : s.nTotalBuffers < maxNumProxyBuffers) :
    ReachesRemote cfg s true e := by
  refine ⟨rfl, hroom, h.header, h.platform, h.stride, fun _ => h.numLines, h.metaInfo, ?_⟩
  intro _ hmeta
  obtain ⟨handle, heq, -⟩ := h.metaHandle hmeta
  simp [heq]

/-- With everything else going well a registration depends on the mark. -/
theorem useBuffer_lacks (h : UseSucceeds cfg s e) (hasPtr : Bool) (pBuffer : UInt32) :
    (proxyUseBuffer cfg s hasPtr pBuffer e).err = .insufficientResources ↔
      hasPtr = true ∧ ¬ s.nTotalBuffers < maxNumProxyBuffers := by
  cases hasPtr with
  | false => simp [proxyUseBuffer, useChecks]
  | true =>
    by_cases hroom : s.nTotalBuffers < maxNumProxyBuffers
    · have hok := useBuffer_succeeds (useSucceeds_reaches h hroom) (useSucceeds_clean h) h.comp
        pBuffer
      simp [hok, hroom]
    · simp [proxyUseBuffer, useChecks, hroom]

theorem freeBuffer_cases {p : UInt32} {e : RpcEnv} {r : FreeResult}
    (hsmooth : e.rpc = .none ∧ e.comp = .none) (h : proxyFreeBuffer cfg s p e = some r) :
    (r.err ≠ .none ∧ r.st = s) ∨ (r.err = .none ∧ s.live p = true ∧ ∃ i, Frees s r.st p i) := by
  unfold proxyFreeBuffer at h
  split at h
  · cases h
    exact .inl ⟨by simp, rfl⟩
  next hp =>
  obtain ⟨hd, hheap, hr⟩ := Option.map_eq_some_iff.mp h
  split at hr
  · next hver =>
    subst hr
    exact .inl ⟨hver, rfl⟩
  cases hslot : s.slotOf p with
  | none =>
    rw [hslot] at hr
    subst hr
    exact .inl ⟨by simp, rfl⟩
  | some i =>
    rw [hslot] at hr
    subst hr
    refine .inr ⟨checkRpcError_none.mpr hsmooth, by simp [Proxy.live, hheap], i, hp, hslot, ?_,
      setSlot_self _ _ _, rfl, rfl, fun q => setHeader_live s p none q⟩
    intro j hj
    exact setSlot_ne _ _ hj

/-! ## Runs -/

/-- The client's view: the headers it has are those of the table, and `nTotalBuffers` is the
most there have been. -/
structure SessionInv (w : Session) : Prop where
  table : TableSound w.proxy
  held : ∀ p, p ∈ w.held ↔ w.proxy.live p = true
  nodup : w.held.Nodup
  count : w.held.length = w.proxy.nAllocatedBuffers
  peak : w.peak = w.proxy.nTotalBuffers

theorem SessionInv.le_peak (h : SessionInv w) : w.held.length ≤ w.peak := by
  rw [h.count, h.peak]
  exact h.table.tally.alloc_le

theorem SessionInv.peak_le (h : SessionInv w) : w.peak ≤ maxNumProxyBuffers := by
  rw [h.peak]
  exact h.table.tally.bound

theorem initial_sessionInv : SessionInv {} := by
  refine ⟨initial_tableSound, fun p => ?_, List.nodup_nil, rfl, rfl⟩
  simp [Proxy.live, Proxy.initial]

theorem SessionInv.same (h : SessionInv w) : w.next w.proxy w.held = w := by
  rw [Session.next, Nat.max_eq_left h.le_peak]

theorem SessionInv.registered (h : SessionInv w) {p r : UInt32} (hst : Stores w.proxy s p r true) :
    SessionInv (w.next s (p :: w.held)) := by
  have hnew : p ∉ w.held := fun hp => by
    have hlive := (h.held p).mp hp
    rw [hst.fresh] at hlive
    cases hlive
  refine ⟨hst.sound h.table, fun q => ?_, List.nodup_cons.mpr ⟨hnew, h.nodup⟩, ?_, ?_⟩
  · change q ∈ p :: w.held ↔ s.live q = true
    rw [hst.live, List.mem_cons]
    by_cases hq : q = p
    · simp [hq]
    · simp [hq, h.held]
  · change (p :: w.held).length = s.nAllocatedBuffers
    rw [hst.alloc, List.length_cons, h.count]
  · change max w.peak (p :: w.held).length = s.nTotalBuffers
    rw [hst.total, List.length_cons, h.count, h.peak]

theorem SessionInv.freed (h : SessionInv w) {p : UInt32} {i : Nat} (hlive : w.proxy.live p = true)
    (hfree : Frees w.proxy s p i) :
    SessionInv (w.next s (w.held.erase p)) := by
  have hmem := (h.held p).mpr hlive
  have hlen := List.length_erase_of_mem hmem
  refine ⟨hfree.sound h.table, fun q => ?_, h.nodup.erase p, ?_, ?_⟩
  · change q ∈ w.held.erase p ↔ s.live q = true
    rw [hfree.live, h.nodup.mem_erase_iff]
    by_cases hq : q = p
    · simp [hq]
    · simp [hq, h.held]
  · change (w.held.erase p).length = s.nAllocatedBuffers
    rw [hfree.alloc, hlen, h.count]
  · change max w.peak (w.held.erase p).length = s.nTotalBuffers
    have hle := h.le_peak
    rw [hfree.total, ← h.peak]
    omega

theorem Session.step_use (hw : SessionInv w) (h : UseSucceeds cfg w.proxy e)
    (hroom : w.peak < maxNumProxyBuffers) (pBuffer : UInt32) :
    ∃ s p r, w.step cfg (.useBuffer true pBuffer e) = some (w.next s (p :: w.held)) ∧
      Stores w.proxy s p r true := by
  rw [hw.peak] at hroom
  have hok := useBuffer_succeeds (useSucceeds_reaches h hroom) (useSucceeds_clean h) h.comp pBuffer
  cases proxyUseBuffer_outcome cfg w.proxy true pBuffer e with
  | refused hcall herr hstored hframe => exact absurd hok herr
  | dangling p hbad herr hst => exact absurd hok herr
  | stored p hcall herr hhdr hstored hst hreach hans =>
    exact ⟨_, p, _, by simp [Session.step, hok, hhdr], hst⟩

theorem Session.step_inv {w' : Session} {q : Request} (hw : SessionInv w) (hq : Smooth cfg w q)
    (h : w.step cfg q = some w') : SessionInv w' := by
  cases q with
  | useBuffer hasPtr pBuffer e =>
    by_cases hturned : hasPtr = false ∨ ¬ w.proxy.nTotalBuffers < maxNumProxyBuffers
    · obtain ⟨err, herr, heq⟩ := proxyUseBuffer_turned cfg hturned pBuffer e
      simp only [Session.step, heq, herr, if_false, hw.same, Option.some.injEq] at h
      exact h ▸ hw
    · obtain ⟨hptr, hroom⟩ := not_or.mp hturned
      obtain rfl : hasPtr = true := by simpa using hptr
      obtain ⟨s, p, r, heq, hst⟩ := Session.step_use hw hq
        (by rw [hw.peak]; exact not_not.mp hroom) pBuffer
      rw [heq] at h
      exact Option.some.inj h ▸ hw.registered hst
  | freeBuffer p e =>
    obtain ⟨r, hr, rfl⟩ := Option.map_eq_some_iff.mp h
    rcases freeBuffer_cases hq hr with ⟨herr, hst⟩ | ⟨herr, hlive, i, hfree⟩
    · rw [if_neg herr, hst, hw.same]
      exact hw
    · rw [if_pos herr]
      exact hw.freed hlive hfree

theorem limitRight_iff {q : Request} (hw : SessionInv w) (hq : Smooth cfg w q) :
    LimitRight cfg w q ↔ LimitFresh w q := by
  cases q with
  | freeBuffer p e => exact Iff.rfl
  | useBuffer hasPtr pBuffer e =>
    have hlacks := useBuffer_lacks hq hasPtr pBuffer
    have hle := hw.le_peak
    have hcap := hw.peak_le
    rw [← hw.peak] at hlacks
    simp only [LimitRight, LimitFresh, hlacks]
    cases hasPtr with
    | false => simp
    | true => simp only [true_and, if_true]; omega

/-- In a run whose allocations and remote calls succeed, the limit is right at every call if and
only if nothing is registered after it was reached and fewer buffers are live. -/
theorem slotLimit_iff (cfg : Config) (qs : List Request)
    (h : Guarded (Session.step cfg) (Smooth cfg) {} qs) :
    Guarded (Session.step cfg) (LimitRight cfg) {} qs ↔
      Guarded (Session.step cfg) LimitFresh {} qs := by
  have hboth : Guarded (Session.step cfg) (fun w q => Smooth cfg w q ∧ LimitRight cfg w q) {} qs ↔
      Guarded (Session.step cfg) (fun w q => Smooth cfg w q ∧ LimitFresh w q) {} qs := by
    refine guarded_congr (J := SessionInv) ?_ ?_ initial_sessionInv
    · intro w q hw
      exact and_congr_right fun hq => limitRight_iff hw hq
    · intro w q w' hw hq hstep
      exact Session.step_inv hw hq.1 hstep
  rw [guarded_and, guarded_and, and_iff_right h, and_iff_right h] at hboth
  exact hboth

def plainUseAt (k : Nat) : Request :=
  .useBuffer true 0x2000 { plainUse with hdrAddr := some (UInt32.ofNat (k + 1)) }

/-- All slots are filled, the first buffer is freed, and one more is to be registered. -/
def refill : List Request :=
  (List.range maxNumProxyBuffers).map plainUseAt ++
    [.freeBuffer 1 ⟨.none, .none⟩, plainUseAt maxNumProxyBuffers]

theorem slotLimit_iff_refill :
    Guarded (Session.step ionConfig) (LimitRight ionConfig) {} refill ↔
      Guarded (Session.step ionConfig) LimitFresh {} refill :=
  slotLimit_iff ionConfig refill (by decide +kernel)

/-- With 31 buffers live the last registration fails for lack of slots. -/
theorem refill_refused : ¬ ∀ cfg qs, Guarded (Session.step cfg) (Smooth cfg) {} qs →
    Guarded (Session.step cfg) (LimitRight cfg) {} qs := by
  intro h
  have hright := h ionConfig refill (by decide +kernel)
  revert hright
  decide +kernel

end Omap4Hal.Domx

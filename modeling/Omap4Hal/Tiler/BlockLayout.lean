import Omap4Hal.Tiler.Atomic
import Omap4Hal.Tiler.BlockSizes

/- The blocks of a buffer. `tiler_mmap` lays them out with a running sum of their sizes and gives
   each the page offset of its own system-space address (`fillPtrs_ptr`). -/
namespace Omap4Hal.Tiler
open Lib
open TilerBlockInfo

/-- The page offset of the system-space address. -/
def TilerBlockInfo.inPage (b : TilerBlockInfo) : Nat := b.ssptr.toNat % 4096

/-! ## The layout -/

theorem pageJoin_toNat (x y : UInt32) :
    (x &&& ~~~(pageSize - 1) ||| (y &&& (pageSize - 1))).toNat =
      x.toNat / 4096 * 4096 + y.toNat % 4096 := by
  have hlow : y.toNat % 4096 < 2 ^ 12 := Nat.mod_lt _ (by decide)
  rw [UInt32.toNat_or, pageStart_toNat, pageOffset_toNat, Nat.mul_comm]
  exact (Nat.two_pow_add_eq_or_of_lt hlow _).symm

theorem fillPtrs_ptr {blks : List TilerBlockInfo} {i : Nat} {b : TilerBlockInfo}
    (hb : blks[i]? = some b) (p size : UInt32) :
    ∃ q, (fillPtrs p size blks)[i]? = some { b with ptr := q } ∧
      q.toNat =
        (p.toNat + size.toNat + offsetAt bytes blks i) % 2 ^ 32 / 4096 * 4096 +
          b.inPage := by
  induction blks generalizing i size with
  | nil => cases hb
  | cons c blks ih =>
    rw [fillPtrs]
    cases i with
    | zero =>
      cases hb
      refine ⟨_, rfl, ?_⟩
      rw [pageJoin_toNat, UInt32.toNat_add, offsetAt_zero, Nat.add_zero, inPage]
    | succ i =>
      obtain ⟨q, hq, hval⟩ := ih hb (size + defSize c)
      refine ⟨q, hq, ?_⟩
      rw [hval, offsetAt_cons_succ, UInt32.toNat_add, bytes]
      omega

/-! ## A created buffer -/

/-- The blocks that `tiler_mmap` registers with the driver. -/
def CreateEnv.infos (e : CreateEnv) (a : BlockArray) : List TilerBlockInfo :=
  (blockLoop allocStage e.grant 0 a.work).blks

section Created

variable {s : MemMgr} {a : BlockArray} {e : CreateEnv} {r : CreateResult}

theorem alloc_created (hs : Sound s) (hr : memMgrAlloc s a e = some r) (hret : r.ret ≠ 0) :
    checkBlocks a.work a.numBlocks (a.numBlocks - 1) = errNone ∧
      (blockLoop allocStage e.grant 0 a.work).failed = none ∧ r.st.bufs = some r.st.records ∧
      ∃ addr, e.mmapRet = some addr ∧ r.ret = e.bufPtr addr ∧
        (e.callocOk = true ∧
            r.blks.take a.numBlocks.toNat = fillPtrs (e.bufPtr addr) 0 (e.infos a) ∧
            r.st.records = s.records ++ [e.record (e.infos a) .alloced addr] ∨
          e.callocOk = false ∧ r.blks.take a.numBlocks.toNat = e.infos a ∧
            r.st.records = s.records) := by
  have hlen : (e.infos a).length = a.work.length := blockLoop_length 0 a.work
  rw [memMgrAlloc] at hr
  split at hr
  next =>
    cases hr
    exact absurd rfl hret
  next hcheck =>
    refine ⟨not_not.mp hcheck, ?_⟩
    dsimp only at hr
    split at hr
    next =>
      cases hr
      exact absurd rfl hret
    next hopen =>
      rw [not_not, incRef_eq_zero.trans Iff.rfl] at hopen
      have hrecs := records_incRef s e.openRet
      obtain ⟨q, hq, rfl⟩ := Option.map_eq_some_iff.mp hr
      cases hf : (blockLoop allocStage e.grant 0 a.work).failed with
      | some ix =>
        rw [createBuffer_failed hf, Option.some.injEq] at hq
        subst hq
        exact absurd rfl hret
      | none =>
        refine ⟨rfl, rfl, ?_⟩
        by_cases hm : ∃ addr, e.MapsAt addr
        · obtain ⟨addr, hm⟩ := hm
          cases hc : e.callocOk with
          | true =>
            rw [createBuffer_cached hf hm hc (bufs_of_ready (incRef_ready hs hopen)),
              Option.some.injEq] at hq
            subst hq
            refine ⟨addr, hm.2.2.1, rfl, Or.inl ⟨rfl, done_work ?_, ?_⟩⟩
            · rw [fillPtrs_length]
              exact hlen
            · rw [hrecs]
              rfl
          | false =>
            rw [createBuffer_uncached hf hm hc, Option.some.injEq] at hq
            subst hq
            exact ⟨addr, hm.2.2.1, rfl, Or.inr ⟨rfl, done_work hlen, hrecs⟩⟩
        · rw [createBuffer_unmapped hf fun addr ha => hm ⟨addr, ha⟩, Option.some.injEq] at hq
          subst hq
          exact absurd rfl hret

theorem infos_getElem? (hf : (blockLoop allocStage e.grant 0 a.work).failed = none) (i : Nat) :
    (e.infos a)[i]? = (a.work[i]?).map (tilerAlloc · (e.grant i)) := by
  have hnone : ∀ k, (blockLoop allocStage e.grant 0 a.work).failed = some k → 0 + i < k := by
    intro k hk
    rw [hf] at hk
    cases hk
  have hloop := blockLoop_blks hnone
  rwa [Nat.zero_add] at hloop

end Created

end Omap4Hal.Tiler

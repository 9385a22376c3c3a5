import Omap4Hal.Tiler.RefCount

/- Creating a TILER buffer is meant to be all or nothing. `Created` is what a
   pointer returned stands for, `Undone` what `NULL` stands for; both are read
   off the requests the call made: which block addresses are held after them
   (`heldAt`), which mappings stand (`liveMaps`), which buffers are registered
   (`registered`). `creation_atomic_iff` gives the exact condition on the caller's
   blocks and on the world's answers under which the code keeps this. What the
   condition rules out: the loop of `MemMgr_Alloc` lets a block without an address
   pass, the block a loop stops at is not given back even when it was obtained, a
   mapping whose buffer would start at 0 is not undone, and a buffer whose record
   cannot be cached is returned. -/
namespace Omap4Hal.Tiler
open Lib
open List (foldl_append foldl_cons foldl_nil length_cons)
open MemMgr

/-! ## Reading the requests -/

/-- The address a request gives, if it gives one: zero is no address. -/
def granted (g : Option UInt32) : Option UInt32 := g.filter (· ≠ 0)

/-- The address held for block `ix` after one more request. -/
def holding (ix : Nat) (h : Option UInt32) : Req → Option UInt32
  | .gbuf j g | .mbuf j g => if j = ix then (granted g).or h else h
  | .fbuf j p | .umbuf j p => if j = ix ∧ h = some p then none else h
  | _ => h

def heldAt (trace : List Req) (ix : Nat) : Option UInt32 := trace.foldl (holding ix) none

def mapping (m : List UInt32) : Req → List UInt32
  | .mmap (some addr) => addr :: m
  | .munmap addr => m.erase addr
  | _ => m

def liveMaps (trace : List Req) : List UInt32 := trace.foldl mapping []

def registering (l : List UInt32) : Req → List UInt32
  | .rbuf (some id) => id :: l
  | .urbuf id => l.erase id
  | _ => l

def registered (trace : List Req) : List UInt32 := trace.foldl registering []

/-- The blocks are as `reset_blocks` leaves them. -/
def Unallocated (blks : List TilerBlockInfo) : Prop := ∀ b ∈ blks, b.ssptr = 0 ∧ b.ptr = 0

/-- What a pointer returned stands for: every block was given an address and
carries it, the buffer is registered, mapped where the pointer says, and on
record under the pointer. -/
structure Created (ty : BufType) (a : BlockArray) (e : CreateEnv) (r : CreateResult) : Prop where
  addressed : ∀ ix, ix < a.numBlocks.toNat →
    ∃ p, p ≠ 0 ∧ e.grant ix = some p ∧ (r.blks[ix]?).map (·.ssptr) = some p
  mapped : ∃ addr ∈ liveMaps r.trace, r.ret = e.bufPtr addr
  recorded : ∃ ad ∈ r.st.records, ad.bufPtr = r.ret ∧ ad.bufType = ty ∧
    ad.tilerId ∈ registered r.trace

/-- What `NULL` stands for: nothing is held, the blocks are unallocated, and the
allocator is as it was. -/
structure Undone (s : MemMgr) (a : BlockArray) (r : CreateResult) : Prop where
  freed : ∀ ix, heldAt r.trace ix = none
  reset : Unallocated (r.blks.take a.numBlocks.toNat)
  cache : r.st.records = s.records
  unmapped : liveMaps r.trace = []
  count : r.st.refCnt = s.refCnt

/-- The outcome of a creating call is all or nothing. -/
def AllOrNothing (ty : BufType) (s : MemMgr) (a : BlockArray) (e : CreateEnv)
    (r : CreateResult) : Prop :=
  (r.ret ≠ 0 → Created ty a e r) ∧ (r.ret = 0 → Undone s a r)

/-! ## The two stages read alike -/

/-- A stage's requests move the held address of their block and nothing else. -/
structure Stage.Lawful (st : Stage) : Prop where
  req_holding : ∀ ix h j g, holding ix h (st.req j g) = if j = ix then (granted g).or h else h
  undo_holding : ∀ ix h j p, holding ix h (st.undo j p) = if j = ix ∧ h = some p then none else h
  req_mapping : ∀ m j g, mapping m (st.req j g) = m
  undo_mapping : ∀ m j p, mapping m (st.undo j p) = m
  req_registering : ∀ m j g, registering m (st.req j g) = m
  after_ssptr : ∀ b g, (st.after b g).ssptr = g.getD b.ssptr

theorem tilerAlloc_ssptr (b : TilerBlockInfo) (g : Option UInt32) :
    (tilerAlloc b g).ssptr = g.getD b.ssptr := by
  simp only [tilerAlloc]
  split <;> rfl

theorem allocStage_lawful : allocStage.Lawful :=
  ⟨fun _ _ _ _ => rfl, fun _ _ _ _ => rfl, fun _ _ _ => rfl, fun _ _ _ => rfl, fun _ _ _ => rfl,
    tilerAlloc_ssptr⟩

theorem mapStage_lawful : mapStage.Lawful :=
  ⟨fun _ _ _ _ => rfl, fun _ _ _ _ => rfl, fun _ _ _ => rfl, fun _ _ _ => rfl, fun _ _ _ => rfl,
    fun _ _ => rfl⟩

section Loop
variable {st : Stage} {grant : Nat → Option UInt32}

theorem blockLoop_length (ix : Nat) (blks : List TilerBlockInfo) :
    (blockLoop st grant ix blks).blks.length = blks.length := by
  induction blks generalizing ix with
  | nil => rfl
  | cons b bs ih =>
    simp only [blockLoop]
    split
    · split
      · simp [ih]
      · rfl
    · rfl

theorem blockLoop_foldl {β : Type} {f : β → Req → β} (hf : ∀ m j g, f m (st.req j g) = m) (m : β)
    (ix : Nat) (blks : List TilerBlockInfo) : (blockLoop st grant ix blks).trace.foldl f m = m := by
  induction blks generalizing ix with
  | nil => rfl
  | cons b bs ih =>
    simp only [blockLoop]
    split
    · split
      · simp only [foldl_cons, hf, ih]
      · simp only [foldl_cons, foldl_nil, hf]
    · rfl

theorem undoFrom_foldl {β : Type} {f : β → Req → β} (hf : ∀ m j p, f m (st.undo j p) = m) (m : β)
    (blks : List TilerBlockInfo) (n : Nat) : (undoFrom st.undo blks n).foldl f m = m := by
  induction n with
  | zero => rfl
  | succ n ih => simp only [undoFrom, foldl_cons, hf, ih]

variable {ix k i : Nat} {blks : List TilerBlockInfo}

theorem blockLoop_failed_range (h : (blockLoop st grant ix blks).failed = some k) :
    ix ≤ k ∧ k < ix + blks.length := by
  induction blks generalizing ix with
  | nil => simp [blockLoop] at h
  | cons b bs ih =>
    simp only [blockLoop] at h
    simp only [length_cons]
    split at h
    · split at h
      · have := ih h
        omega
      · simp only [Option.some.injEq] at h
        omega
    · simp only [Option.some.injEq] at h
      omega

theorem blockLoop_blks (h : ∀ k, (blockLoop st grant ix blks).failed = some k → ix + i < k) :
    (blockLoop st grant ix blks).blks[i]? = (blks[i]?).map (st.after · (grant (ix + i))) := by
  induction blks generalizing ix i with
  | nil => rfl
  | cons b bs ih =>
    simp only [blockLoop] at h ⊢
    split
    · next ht =>
      simp only [ht, if_true] at h
      split
      · next ha =>
        simp only [ha, if_true] at h
        cases i with
        | zero => simp
        | succ i =>
          simp only [List.getElem?_cons_succ]
          rw [ih (fun k hk => by have := h k hk; omega), show ix + 1 + i = ix + (i + 1) by omega]
      · next ha =>
        simp only [ha] at h
        have := h ix rfl
        omega
    · next ht =>
      simp only [ht] at h
      have := h ix rfl
      omega

variable (hst : st.Lawful)
include hst

theorem blockLoop_holding_before (hi : i < ix) (h : Option UInt32) (blks : List TilerBlockInfo) :
    (blockLoop st grant ix blks).trace.foldl (holding i) h = h := by
  induction blks generalizing ix with
  | nil => rfl
  | cons b bs ih =>
    have hne : ix ≠ i := by omega
    simp only [blockLoop]
    split
    · split
      · simp only [foldl_cons, hst.req_holding, hne, if_false]
        exact ih (by omega)
      · simp only [foldl_cons, foldl_nil, hst.req_holding, hne, if_false]
    · rfl

theorem blockLoop_holding (hi : i < blks.length)
    (h : ∀ k, (blockLoop st grant ix blks).failed = some k → ix + i < k) :
    (blockLoop st grant ix blks).trace.foldl (holding (ix + i)) none =
      granted (grant (ix + i)) := by
  induction blks generalizing ix i with
  | nil => simp at hi
  | cons b bs ih =>
    simp only [blockLoop] at h ⊢
    split
    · next ht =>
      simp only [ht, if_true] at h
      split
      · next ha =>
        simp only [ha, if_true] at h
        simp only [foldl_cons, hst.req_holding]
        cases i with
        | zero =>
          simp only [Nat.add_zero, if_true, Option.or_none]
          exact blockLoop_holding_before hst (by omega) _ bs
        | succ i =>
          have hne : ix ≠ ix + (i + 1) := by omega
          simp only [hne, if_false]
          rw [show ix + (i + 1) = ix + 1 + i by omega]
          apply ih (by simpa using hi)
          intro k hk
          have := h k hk
          omega
      · next ha =>
        simp only [ha] at h
        have := h ix rfl
        omega
    · next ht =>
      simp only [ht] at h
      have := h ix rfl
      omega

theorem blockLoop_holding_failed (h : (blockLoop st grant ix blks).failed = some k) :
    ∃ b, blks[k - ix]? = some b ∧ (blockLoop st grant ix blks).trace.foldl (holding k) none =
      if st.tries b = true then granted (grant k) else none := by
  induction blks generalizing ix with
  | nil => simp [blockLoop] at h
  | cons b bs ih =>
    simp only [blockLoop] at h ⊢
    split at h
    · next ht =>
      split at h
      · next ha =>
        have hr := blockLoop_failed_range h
        obtain ⟨c, hc, hfold⟩ := ih h
        refine ⟨c, ?_, ?_⟩
        · rw [show k - ix = (k - (ix + 1)) + 1 by omega, List.getElem?_cons_succ]
          exact hc
        · have hne : ix ≠ k := by omega
          simp only [ht, ha, if_true, foldl_cons, hst.req_holding, hne, if_false]
          exact hfold
      · next ha =>
        cases h
        refine ⟨b, by simp, ?_⟩
        simp only [ht, ha, if_true, Bool.false_eq_true, if_false, foldl_cons, foldl_nil,
          hst.req_holding, Option.or_none]
    · next ht =>
      cases h
      refine ⟨b, by simp, ?_⟩
      simp only [ht, Bool.false_eq_true, if_false, foldl_nil]

theorem blockLoop_holding_after (hi : k < i) (h : (blockLoop st grant ix blks).failed = some k)
    (hh : Option UInt32) :
    (blockLoop st grant ix blks).trace.foldl (holding i) hh = hh := by
  induction blks generalizing ix with
  | nil => simp [blockLoop] at h
  | cons b bs ih =>
    have hr := blockLoop_failed_range h
    have hne : ix ≠ i := by omega
    simp only [blockLoop] at h ⊢
    split at h
    · next ht =>
      split at h
      · next ha =>
        simp only [ht, ha, if_true, foldl_cons, hst.req_holding, hne, if_false]
        exact ih h
      · next ha =>
        simp only [ht, ha, if_true, Bool.false_eq_true, if_false, foldl_cons, foldl_nil,
          hst.req_holding, hne]
    · next ht =>
      simp only [ht, Bool.false_eq_true, if_false, foldl_nil]

theorem undoFrom_holding (blks : List TilerBlockInfo) (n i : Nat) (h : Option UInt32) :
    (undoFrom st.undo blks n).foldl (holding i) h =
      if i < n ∧ h = some ((blks[i]?).elim 0 (·.ssptr)) then none else h := by
  induction n generalizing h with
  | zero => simp [undoFrom]
  | succ n ih =>
    simp only [undoFrom, foldl_cons, hst.undo_holding, List.head?_drop]
    by_cases hn : n = i
    · subst hn
      simp only [true_and, ih, Nat.lt_irrefl, false_and, if_false, Nat.lt_succ_self]
    · simp only [hn, false_and, if_false, ih]
      have : i < n ↔ i < n + 1 := by omega
      simp only [this]

theorem blockLoop_holding_beyond (hi : ix + blks.length ≤ i) (h : Option UInt32) :
    (blockLoop st grant ix blks).trace.foldl (holding i) h = h := by
  induction blks generalizing ix with
  | nil => rfl
  | cons b bs ih =>
    simp only [length_cons] at hi
    have hne : ix ≠ i := by omega
    simp only [blockLoop]
    split
    · split
      · simp only [foldl_cons, hst.req_holding, hne, if_false]
        exact ih (by omega)
      · simp only [foldl_cons, foldl_nil, hst.req_holding, hne, if_false]
    · rfl

theorem undone_passed {n : Nat} (hi : i < blks.length) (hn : i < n)
    (h : ∀ k, (blockLoop st grant 0 blks).failed = some k → i < k) :
    (undoFrom st.undo (blockLoop st grant 0 blks).blks n).foldl (holding i)
      ((blockLoop st grant 0 blks).trace.foldl (holding i) none) = none := by
  have h0 : ∀ k, (blockLoop st grant 0 blks).failed = some k → 0 + i < k := by
    intro k hk
    rw [Nat.zero_add]
    exact h k hk
  have hheld := blockLoop_holding hst hi h0
  rw [Nat.zero_add] at hheld
  rw [hheld, undoFrom_holding hst]
  cases hg : granted (grant i) with
  | none => simp
  | some p =>
    have hp : grant i = some p := (Option.filter_eq_some_iff.mp hg).1
    have hb : (blockLoop st grant 0 blks).blks[i]? = some (st.after blks[i] (grant i)) := by
      rw [blockLoop_blks h0, List.getElem?_eq_getElem hi, Option.map_some, Nat.zero_add]
    simp only [hb, hn, hp, Option.elim_some, hst.after_ssptr, Option.getD_some, and_self, if_true]

end Loop

/-! ## The recoverable portion -/

/-- The buffer is registered under an id and mapped, be it at an address at which
the buffer would start at 0. -/
def CreateEnv.Maps (e : CreateEnv) (addr : UInt32) : Prop :=
  e.rbufRet = 0 ∧ e.rbufOut.offset ≠ 0 ∧ e.mmapRet = some addr

/-- The condition on the blocks and on the world's answers: the block a loop
stops at was given no address, and a buffer that comes to be mapped does not
start at 0, can be put on record and has an address for every block. -/
structure CreateClean (st : Stage) (blks : List TilerBlockInfo) (e : CreateEnv) : Prop where
  stopped : ∀ ix b, st.StopsAt e.grant blks ix → blks[ix]? = some b → st.tries b = true →
    granted (e.grant ix) = none
  mapped : ∀ addr, st.PassesAll e.grant blks → e.Maps addr →
    e.bufPtr addr ≠ 0 ∧ e.callocOk = true ∧ ∀ ix, ix < blks.length → granted (e.grant ix) ≠ none

theorem work_length (a : BlockArray) : a.work.length = a.numBlocks.toNat := by
  have := a.enough
  simp only [BlockArray.work, List.length_take]
  omega

theorem refCnt_incRef {s : MemMgr} {o : Int} (h : opens s o) :
    (incRef s o).2.refCnt = s.refCnt + 1 := by
  unfold incRef
  by_cases h0 : s.refCnt = 0
  · simp only [h0, h h0, if_true, refCnt_init]
  · simp only [h0, if_false]

theorem refCnt_incRef_failed {s : MemMgr} {o : Int} (h : ¬ opens s o) :
    (incRef s o).2.refCnt = s.refCnt := by
  have h0 : s.refCnt = 0 := by
    by_contra hne
    exact h (fun hz => absurd hz hne)
  have ho : ¬ 0 ≤ o := fun ho => h (fun _ => ho)
  simp only [incRef, h0, ho, if_true, if_false, refCnt_init, Nat.add_sub_cancel]

theorem refCnt_decRef (s : MemMgr) : (decRef s).2.refCnt = s.refCnt - 1 := by
  simp only [decRef]
  split
  · next h => simp only [h]
  · split <;> rfl

@[simp] theorem fillPtrs_length (p size : UInt32) (blks : List TilerBlockInfo) :
    (fillPtrs p size blks).length = blks.length := by
  induction blks generalizing size with
  | nil => rfl
  | cons b bs ih => simp only [fillPtrs, length_cons, ih]

theorem fillPtrs_ssptr (p size : UInt32) (blks : List TilerBlockInfo) (i : Nat) :
    ((fillPtrs p size blks)[i]?).map (·.ssptr) = (blks[i]?).map (·.ssptr) := by
  induction blks generalizing size i with
  | nil => rfl
  | cons b bs ih =>
    cases i with
    | zero => rfl
    | succ i =>
      simp only [fillPtrs, List.getElem?_cons_succ]
      exact ih _ i

theorem unallocated_resetBlocks (blks : List TilerBlockInfo) : Unallocated (resetBlocks blks) := by
  intro b hb
  obtain ⟨c, _, hc⟩ := List.mem_map.mp hb
  rw [← hc]
  exact ⟨rfl, rfl⟩

theorem done_work {a : BlockArray} {r : CreateResult} (h : r.blks.length = a.work.length) :
    (done a r).blks.take a.numBlocks.toNat = r.blks := by
  rw [work_length] at h
  rw [← h]
  exact List.take_left

theorem granted_eq_none {g : Option UInt32} : granted g = none ↔ ∀ p, g = some p → p = 0 := by
  simp only [granted, Option.filter_eq_none_iff, decide_eq_true_eq, ne_eq,
    Decidable.not_not]

section Create
variable {s s' : MemMgr} {a : BlockArray} {e : CreateEnv} {st : Stage} {ty : BufType}

theorem allOrNothing_null {r : CreateResult} (h : r.ret = 0) :
    AllOrNothing ty s a e r ↔ Undone s a r := by
  simp only [AllOrNothing, ne_eq, h, not_true, false_imp_iff, true_and, true_imp_iff]

theorem allOrNothing_ptr {r : CreateResult} (h : r.ret ≠ 0) :
    AllOrNothing ty s a e r ↔ Created ty a e r := by
  simp only [AllOrNothing, ne_eq, h, not_false_iff, true_imp_iff, false_imp_iff, and_true]

theorem unwind_undone {blks : List TilerBlockInfo} {trace : List Req} {n : Nat}
    (hst : st.Lawful) (hlen : blks.length = a.work.length) (hrec : s'.records = s.records)
    (hcnt : s'.refCnt = s.refCnt + 1) :
    AllOrNothing ty s a e (done a (unwind st s' blks trace n)) ↔
      (∀ i, heldAt (trace ++ undoFrom st.undo blks n) i = none) ∧ liveMaps trace = [] := by
  have hmaps : liveMaps (trace ++ undoFrom st.undo blks n) = liveMaps trace := by
    simp only [liveMaps, foldl_append]
    exact undoFrom_foldl hst.undo_mapping _ _ _
  rw [allOrNothing_null rfl]
  constructor
  · intro h
    exact ⟨h.freed, hmaps ▸ h.unmapped⟩
  · intro h
    refine ⟨h.1, ?_, ?_, hmaps.trans h.2, ?_⟩
    · rw [done_work (by simpa [unwind, resetBlocks] using hlen)]
      exact unallocated_resetBlocks blks
    · exact (records_decRef s').trans hrec
    · show (decRef s').2.refCnt = s.refCnt
      rw [refCnt_decRef, hcnt]
      rfl

/-- The loop stopped early: the only address left is that of the block it
stopped at. -/
theorem createBuffer_stopped (hst : st.Lawful) (hrec : s'.records = s.records)
    (hcnt : s'.refCnt = s.refCnt + 1) {ix : Nat}
    (hf : (blockLoop st e.grant 0 a.work).failed = some ix) :
    AllOrNothing ty s a e (done a (unwind st s' (blockLoop st e.grant 0 a.work).blks
      (blockLoop st e.grant 0 a.work).trace ix)) ↔
    ∀ b, a.work[ix]? = some b → st.tries b = true → granted (e.grant ix) = none := by
  have hrange := blockLoop_failed_range hf
  have hmaps : liveMaps (blockLoop st e.grant 0 a.work).trace = [] :=
    blockLoop_foldl hst.req_mapping _ _ _
  have hlow : ∀ i, i < ix → heldAt ((blockLoop st e.grant 0 a.work).trace ++
      undoFrom st.undo (blockLoop st e.grant 0 a.work).blks ix) i = none := by
    intro i hi
    rw [heldAt, foldl_append]
    apply undone_passed hst (by omega) hi
    intro k hk
    rw [hf, Option.some.injEq] at hk
    omega
  have hhigh : ∀ i, ix < i → heldAt ((blockLoop st e.grant 0 a.work).trace ++
      undoFrom st.undo (blockLoop st e.grant 0 a.work).blks ix) i = none := by
    intro i hi
    rw [heldAt, foldl_append, blockLoop_holding_after hst hi hf, undoFrom_holding hst]
    simp only [reduceCtorEq, and_false, if_false]
  obtain ⟨b, hb, hat⟩ := blockLoop_holding_failed hst hf
  have hix : heldAt ((blockLoop st e.grant 0 a.work).trace ++
      undoFrom st.undo (blockLoop st e.grant 0 a.work).blks ix) ix =
      if st.tries b = true then granted (e.grant ix) else none := by
    rw [heldAt, foldl_append, hat, undoFrom_holding hst]
    simp only [Nat.lt_irrefl, false_and, if_false]
  rw [unwind_undone hst (blockLoop_length 0 a.work) hrec hcnt]
  simp only [hmaps, and_true]
  rw [Nat.sub_zero] at hb
  constructor
  · intro h c hc ht
    cases hb.symm.trans hc
    have := h ix
    rw [hix, if_pos ht] at this
    exact this
  · intro h i
    rcases Nat.lt_trichotomy i ix with hi | hi | hi
    · exact hlow i hi
    · rw [hi, hix]
      split
      · next ht => exact h b hb ht
      · rfl
    · exact hhigh i hi

theorem unmappedTrace_holding (i : Nat) (h : Option UInt32) :
    e.unmappedTrace.foldl (holding i) h = h := by
  simp only [CreateEnv.unmappedTrace]
  split
  · rfl
  · split <;> rfl

theorem unmappedTrace_mapping :
    e.unmappedTrace.foldl mapping [] = [] ↔ ∀ addr, ¬ e.Maps addr := by
  simp only [CreateEnv.unmappedTrace, CreateEnv.Maps]
  by_cases hr : e.rbufRet = 0
  swap
  · simp [hr, mapping]
  by_cases ho : e.rbufOut.offset = 0
  · simp [hr, ho, mapping]
  · cases hm : e.mmapRet with
    | none => simp [hr, ho, mapping]
    | some addr => simp [hr, ho, mapping]

/-- The buffer could not be mapped where it can be used: every block is undone,
and what may be left is the mapping. -/
theorem createBuffer_notMapped (hst : st.Lawful) (hrec : s'.records = s.records)
    (hcnt : s'.refCnt = s.refCnt + 1) (hf : (blockLoop st e.grant 0 a.work).failed = none) :
    AllOrNothing ty s a e (done a (unwind st s' (blockLoop st e.grant 0 a.work).blks
      ((blockLoop st e.grant 0 a.work).trace ++ e.unmappedTrace)
      (blockLoop st e.grant 0 a.work).blks.length)) ↔ ∀ addr, ¬ e.Maps addr := by
  have hheld : ∀ i, heldAt ((blockLoop st e.grant 0 a.work).trace ++ e.unmappedTrace ++
      undoFrom st.undo (blockLoop st e.grant 0 a.work).blks
        (blockLoop st e.grant 0 a.work).blks.length) i = none := by
    intro i
    rw [heldAt, foldl_append, foldl_append, unmappedTrace_holding, blockLoop_length]
    by_cases hi : i < a.work.length
    · exact undone_passed hst hi hi (fun k hk => by simp [hf] at hk)
    · rw [blockLoop_holding_beyond hst (by omega), undoFrom_holding hst]
      simp only [reduceCtorEq, and_false, if_false]
  have hmaps : liveMaps ((blockLoop st e.grant 0 a.work).trace ++ e.unmappedTrace) =
      e.unmappedTrace.foldl mapping [] := by
    rw [liveMaps, foldl_append, blockLoop_foldl hst.req_mapping]
  rw [unwind_undone hst (blockLoop_length 0 a.work) hrec hcnt, hmaps, unmappedTrace_mapping]
  exact and_iff_right hheld

theorem createBuffer_recorded (hst : st.Lawful) {addr : UInt32} (hm : e.MapsAt addr)
    {l : List AllocData} (hf : (blockLoop st e.grant 0 a.work).failed = none) :
    AllOrNothing ty s a e (done a
      ⟨{ s' with bufs := some (l ++ [e.record (blockLoop st e.grant 0 a.work).blks ty addr]) },
        fillPtrs (e.bufPtr addr) 0 (blockLoop st e.grant 0 a.work).blks, e.bufPtr addr,
        (blockLoop st e.grant 0 a.work).trace ++
          [.rbuf (some e.rbufOut.offset), .mmap (some addr)]⟩) ↔
    ∀ ix, ix < a.work.length → granted (e.grant ix) ≠ none := by
  rw [allOrNothing_ptr hm.2.2.2]
  constructor
  · intro h ix hix hnone
    rw [work_length] at hix
    obtain ⟨p, hp, hg, _⟩ := h.addressed ix hix
    exact hp (granted_eq_none.mp hnone p hg)
  · intro h
    refine ⟨?_, ?_, ?_⟩
    · intro ix hix
      rw [← work_length] at hix
      have hne := h ix hix
      rw [ne_eq, granted_eq_none] at hne
      simp only [not_forall] at hne
      obtain ⟨p, hg, hp⟩ := hne
      refine ⟨p, hp, hg, ?_⟩
      have hlt : ix < (fillPtrs (e.bufPtr addr) 0 (blockLoop st e.grant 0 a.work).blks).length := by
        rw [fillPtrs_length, blockLoop_length]
        exact hix
      have h0 : ∀ k, (blockLoop st e.grant 0 a.work).failed = some k → 0 + ix < k := by
        intro k hk
        simp [hf] at hk
      simp only [done]
      rw [List.getElem?_append_left hlt, fillPtrs_ssptr, blockLoop_blks h0,
        List.getElem?_eq_getElem hix]
      simp only [Nat.zero_add, hg, Option.map_some, hst.after_ssptr, Option.getD_some]
    · refine ⟨addr, ?_, rfl⟩
      simp only [done, liveMaps, foldl_append, blockLoop_foldl hst.req_mapping]
      simp [mapping]
    · refine ⟨e.record (blockLoop st e.grant 0 a.work).blks ty addr, ?_, rfl, rfl, ?_⟩
      · simp [done, cacheCheck, records]
      · simp only [done, registered, foldl_append, blockLoop_foldl hst.req_registering]
        simp [registering, CreateEnv.record]

theorem createBuffer_unrecorded (hst : st.Lawful) {addr : UInt32} (hm : e.MapsAt addr)
    {blks : List TilerBlockInfo} :
    ¬ AllOrNothing ty s a e (done a ⟨s', blks, e.bufPtr addr,
      (blockLoop st e.grant 0 a.work).trace ++
        [.rbuf (some e.rbufOut.offset), .mmap (some addr), .urbuf e.rbufOut.offset]⟩) := by
  rw [allOrNothing_ptr hm.2.2.2]
  intro h
  obtain ⟨ad, _, _, _, hreg⟩ := h.recorded
  simp only [done, registered, foldl_append, blockLoop_foldl hst.req_registering] at hreg
  simp [registering] at hreg

theorem createBuffer_allOrNothing (hst : st.Lawful) (hb : s'.bufs ≠ none)
    (hrec : s'.records = s.records) (hcnt : s'.refCnt = s.refCnt + 1) :
    ∃ r, (createBuffer st ty s' a.work e).map (done a) = some r ∧
      (AllOrNothing ty s a e r ↔ CreateClean st a.work e) := by
  cases hf : (blockLoop st e.grant 0 a.work).failed with
  | some ix =>
    -- a block was refused: only the first half of `CreateClean` applies
    refine ⟨_, by rw [createBuffer_failed hf]; rfl, ?_⟩
    have hstop := blockLoop_failed_some hf
    rw [createBuffer_stopped hst hrec hcnt hf]
    constructor
    · intro h
      refine ⟨?_, fun addr hall _ => absurd hall hstop.not_passesAll⟩
      intro j b hj hb ht
      rw [hj.unique hstop] at hb ⊢
      exact h b hb ht
    · intro h b hb ht
      exact h.stopped ix b hstop hb ht
  | none =>
    -- all blocks were granted: only the second half does
    have hall := blockLoop_failed_none.mp hf
    have hclean : CreateClean st a.work e ↔ ∀ addr, e.Maps addr → e.bufPtr addr ≠ 0 ∧
        e.callocOk = true ∧ ∀ ix, ix < a.work.length → granted (e.grant ix) ≠ none :=
      ⟨fun h addr => h.mapped addr hall,
        fun h => ⟨fun _ _ hstop => absurd hall hstop.not_passesAll, fun addr _ => h addr⟩⟩
    rw [hclean]
    by_cases hm : ∃ addr, e.MapsAt addr
    · obtain ⟨addr, hm⟩ := hm
      have huniq : ∀ x, e.Maps x → x = addr := by
        intro x hx
        have := hx.2.2.symm.trans hm.2.2.1
        exact Option.some.inj this
      have hmaps : e.Maps addr := ⟨hm.1, hm.2.1, hm.2.2.1⟩
      cases hc : e.callocOk with
      | true =>
        refine ⟨_, by rw [createBuffer_cached hf hm hc (bufs_of_ready hb)]; rfl, ?_⟩
        rw [createBuffer_recorded hst hm hf]
        constructor
        · intro h x hx
          rw [huniq x hx]
          exact ⟨hm.2.2.2, rfl, h⟩
        · intro h
          exact (h addr hmaps).2.2
      | false =>
        refine ⟨_, by rw [createBuffer_uncached hf hm hc]; rfl, ?_⟩
        apply iff_of_false (createBuffer_unrecorded hst hm)
        intro h
        exact absurd (h addr hmaps).2.1 (by decide)
    · have hno : ∀ addr, ¬ e.MapsAt addr := fun addr ha => hm ⟨addr, ha⟩
      refine ⟨_, by rw [createBuffer_unmapped hf hno]; rfl, ?_⟩
      rw [createBuffer_notMapped hst hrec hcnt hf]
      constructor
      · intro h addr hx
        exact absurd hx (h addr)
      · intro h addr hx
        exact hno addr ⟨hx.1, hx.2.1, hx.2.2, (h addr hx).1⟩

end Create

/-! ## The two calls -/

/-- The call is not turned away before the recoverable portion: the blocks are
in order and the device is open. -/
def Admitted (s : MemMgr) (a : BlockArray) (e : CreateEnv) (numPagesizeBlocks : Int) : Prop :=
  checkBlocks a.work a.numBlocks numPagesizeBlocks = 0 ∧ opens s e.openRet

/-- When `MemMgr_Alloc` is all or nothing. A call turned away does not touch the
blocks, so they have to be unallocated already. -/
def AllocClean (s : MemMgr) (a : BlockArray) (e : CreateEnv) : Prop :=
  (Admitted s a e (a.numBlocks - 1) → CreateClean allocStage a.work e) ∧
  (¬ Admitted s a e (a.numBlocks - 1) → Unallocated a.work)

def MapClean (s : MemMgr) (a : BlockArray) (e : CreateEnv) : Prop :=
  (Admitted s a e a.numBlocks → mapSupported a = true → CreateClean mapStage a.work e) ∧
  (¬ Admitted s a e a.numBlocks → Unallocated a.work)

section Calls
variable {s s' : MemMgr} {a : BlockArray} {e : CreateEnv} {ty : BufType}

theorem refused_allOrNothing (hrec : s'.records = s.records) (hcnt : s'.refCnt = s.refCnt) :
    AllOrNothing ty s a e (done a ⟨s', a.work, 0, []⟩) ↔ Unallocated a.work := by
  have hwork : (done a ⟨s', a.work, 0, []⟩).blks.take a.numBlocks.toNat = a.work := done_work rfl
  rw [allOrNothing_null rfl]
  constructor
  · intro h
    rw [← hwork]
    exact h.reset
  · intro h
    exact ⟨fun _ => rfl, hwork.symm ▸ h, hrec, rfl, hcnt⟩

theorem alloc_allOrNothing (hs : Sound s) :
    ∃ r, memMgrAlloc s a e = some r ∧ (AllOrNothing .alloced s a e r ↔ AllocClean s a e) := by
  simp only [memMgrAlloc, AllocClean, Admitted]
  by_cases hc : checkBlocks a.work a.numBlocks (a.numBlocks - 1) = 0
  swap
  · simp only [ne_eq, hc, not_false_iff, if_true, false_and, false_imp_iff, true_imp_iff, true_and]
    exact ⟨_, rfl, refused_allOrNothing rfl rfl⟩
  by_cases ho : opens s e.openRet
  · simp only [ne_eq, hc, not_true, if_false, incRef_eq_zero.mpr ho, ho, and_self, true_imp_iff,
      false_imp_iff, and_true]
    exact createBuffer_allOrNothing allocStage_lawful (incRef_ready hs ho) (records_incRef s _)
      (refCnt_incRef ho)
  · have hne := mt incRef_eq_zero.mp ho
    simp only [ne_eq, hc, not_true, if_false, hne, not_false_iff, if_true, ho, and_false,
      false_imp_iff, true_imp_iff, true_and]
    exact ⟨_, rfl, refused_allOrNothing (records_incRef s _) (refCnt_incRef_failed ho)⟩

theorem map_allOrNothing (hs : Sound s) :
    ∃ r, memMgrMap s a e = some r ∧ (AllOrNothing .mapped s a e r ↔ MapClean s a e) := by
  simp only [memMgrMap, MapClean, Admitted]
  by_cases hc : checkBlocks a.work a.numBlocks a.numBlocks = 0
  swap
  · simp only [ne_eq, hc, not_false_iff, if_true, false_and, false_imp_iff, true_imp_iff, true_and]
    exact ⟨_, rfl, refused_allOrNothing rfl rfl⟩
  by_cases ho : opens s e.openRet
  · by_cases hm : mapSupported a = true
    · simp only [ne_eq, hc, not_true, if_false, incRef_eq_zero.mpr ho, ho, hm, Bool.not_true,
        Bool.false_eq_true, and_self, true_imp_iff, false_imp_iff, and_true]
      exact createBuffer_allOrNothing mapStage_lawful (incRef_ready hs ho) (records_incRef s _)
        (refCnt_incRef ho)
    · simp only [ne_eq, hc, not_true, if_false, incRef_eq_zero.mpr ho, ho, hm, Bool.not_false,
        if_true, Bool.false_eq_true, and_self, true_imp_iff, false_imp_iff]
      refine ⟨_, rfl, iff_of_true ?_ trivial⟩
      rw [unwind_undone mapStage_lawful rfl (records_incRef s _) (refCnt_incRef ho)]
      exact ⟨fun _ => rfl, rfl⟩
  · have hne := mt incRef_eq_zero.mp ho
    simp only [ne_eq, hc, not_true, if_false, hne, not_false_iff, if_true, ho, and_false,
      false_imp_iff, true_imp_iff, true_and]
    exact ⟨_, rfl, refused_allOrNothing (records_incRef s _) (refCnt_incRef_failed ho)⟩

end Calls

/-- In every reachable state both creating calls return, and each is all or
nothing exactly when its condition holds. -/
theorem creation_atomic_iff {s : MemMgr} (h : Reachable s) (a : BlockArray) (e : CreateEnv) :
    (∃ r, memMgrAlloc s a e = some r ∧ (AllOrNothing .alloced s a e r ↔ AllocClean s a e)) ∧
    (∃ r, memMgrMap s a e = some r ∧ (AllOrNothing .mapped s a e r ↔ MapClean s a e)) :=
  ⟨alloc_allOrNothing h.sound, map_allOrNothing h.sound⟩

/-- The first page of a process, from a driver that answers everything. -/
theorem creation_atomic_first : Reachable initial ∧
    (∃ r, memMgrAlloc initial onePage willingEnv = some r ∧
      (AllOrNothing .alloced initial onePage willingEnv r ↔
        AllocClean initial onePage willingEnv)) :=
  ⟨⟨[], rfl⟩, (creation_atomic_iff ⟨[], rfl⟩ onePage willingEnv).1⟩

/-- The driver gives no block, or the record cannot be allocated: `MemMgr_Alloc`
returns a pointer all the same. -/
theorem creation_not_atomic :
    (∃ r, memMgrAlloc initial onePage { willingEnv with grant := fun _ => none } = some r ∧
      r.ret = 0x40000000 ∧ ∀ b ∈ r.blks, b.ssptr = 0) ∧
    (∃ r, memMgrAlloc initial onePage { willingEnv with callocOk := false } = some r ∧
      r.ret = 0x40000000 ∧ r.st.records = []) ∧
    ¬ ∀ s a e, Reachable s → ∃ r, memMgrAlloc s a e = some r ∧ AllOrNothing .alloced s a e r := by
  have h₁ : memMgrAlloc initial onePage { willingEnv with callocOk := false } = some
      ⟨⟨1, 3, some []⟩, [⟨.page, 0x1000, 0, 0, 0x78000000⟩], 0x40000000,
        [.gbuf 0 (some 0x78000000), .rbuf (some 0x5000), .mmap (some 0x40000000),
          .urbuf 0x5000]⟩ := by rfl
  have h₂ : memMgrAlloc initial onePage { willingEnv with grant := fun _ => none } = some
      ⟨⟨1, 3, some [⟨0x40000000, 0x1000, 0x5000, .alloced⟩]⟩,
        [⟨.page, 0x1000, 0, 0x40000000, 0⟩], 0x40000000,
        [.gbuf 0 none, .rbuf (some 0x5000), .mmap (some 0x40000000)]⟩ := by rfl
  refine ⟨⟨_, h₂, rfl, by decide⟩, ⟨_, h₁, rfl, rfl⟩, ?_⟩
  intro hall
  obtain ⟨r, hr, hat⟩ := hall _ _ _ ⟨[], rfl⟩
  rw [h₁, Option.some.injEq] at hr
  subst hr
  obtain ⟨ad, had, _⟩ := (hat.1 (by decide)).recorded
  cases had

end Omap4Hal.Tiler

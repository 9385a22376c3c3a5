import Omap4Hal.Rcm.Symbols

/- The indices of an RcmServer from the addition of a symbol to the time after its removal.
   As long as no two registered symbols have one name, an index leads to the address and
   the name to the index (`RoundTrip`). A slot is used again, and so is a key: an index that
   was given up is refused until 2047 symbols have been added after the one it was given to. -/
namespace Omap4Hal.Rcm.Symbols

open Lib

/-! ## Different names -/

/-- A symbol that is added has a name that no other registered or static symbol has. -/
def FreshName (w : World) : Call → Prop
  | .add a => ∀ name fxnIdx, a.funcName = some name → (addSymbol w.obj a).1 = .ok fxnIdx →
      (∀ i j y, w.live i j = some y → y.name ≠ name) ∧
      ∀ slot ∈ w.obj.fxnTabStatic, slot.name ≠ some name
  | .remove _ _ => True

structure Names (w : World) : Prop where
  unique : ∀ i j y i' j' z, w.live i j = some y → w.live i' j' = some z → y.name = z.name →
    i = i' ∧ j = j'
  notStatic : ∀ i j y, w.live i j = some y → ∀ slot ∈ w.obj.fxnTabStatic, slot.name ≠ some y.name

/-- The slot of a removed symbol, which later symbols may have taken. -/
def Stale (w : World) (y : Symbol) : Prop :=
  ∃ i j, (0 < i ∧ i < maxTables ∧ j < tabCount i) ∧
    y.index = fxnIndex (keyAfter y.serial) i j ∧ 0 < y.serial ∧ y.serial ≤ w.added ∧
    ∀ z, w.live i j = some z → y.serial < z.serial

section

variable {w w' : World} {c : Call}

theorem Names.change (h : Names w) (hfresh : FreshName w c)
    (hstatic : w'.obj.fxnTabStatic = w.obj.fxnTabStatic) (hc : Change w w' c) : Names w' := by
  cases hc with
  | same hlive _ _ =>
    refine ⟨?_, ?_⟩
    · rw [hlive]
      exact h.unique
    · rw [hlive, hstatic]
      exact h.notStatic
  | @register a i₀ j₀ y₀ hname _ _ hok hfree hlive _ _ =>
    obtain ⟨hother, hnot⟩ := hfresh y₀.name y₀.index hname hok
    refine ⟨?_, ?_⟩
    · intro i j y i' j' z hy hz heq
      rw [hlive] at hy hz
      by_cases hij : i = i₀ ∧ j = j₀
      · by_cases hij' : i' = i₀ ∧ j' = j₀
        · omega
        · rw [if_pos hij] at hy
          rw [if_neg hij'] at hz
          rw [← Option.some.inj hy] at heq
          exact absurd heq.symm (hother i' j' z hz)
      · rw [if_neg hij] at hy
        by_cases hij' : i' = i₀ ∧ j' = j₀
        · rw [if_pos hij'] at hz
          rw [← Option.some.inj hz] at heq
          exact absurd heq (hother i j y hy)
        · rw [if_neg hij'] at hz
          exact h.unique i j y i' j' z hy hz heq
    · intro i j y hy
      rw [hlive] at hy
      rw [hstatic]
      by_cases hij : i = i₀ ∧ j = j₀
      · rw [if_pos hij] at hy
        rw [← Option.some.inj hy]
        exact hnot
      · rw [if_neg hij] at hy
        exact h.notStatic i j y hy
  | unregister _ hlive _ _ =>
    -- what is left was there before
    have hold : ∀ i j y, w'.live i j = some y → w.live i j = some y := by
      intro i j y hy
      rw [hlive] at hy
      split at hy
      · cases hy
      · exact hy
    refine ⟨?_, ?_⟩
    · intro i j y i' j' z hy hz heq
      exact h.unique i j y i' j' z (hold i j y hy) (hold i' j' z hz) heq
    · intro i j y hy
      rw [hstatic]
      exact h.notStatic i j y (hold i j y hy)

theorem Stale.change (hinv : Inv w) (hstale : ∀ y m, (y, m) ∈ w.removed → Stale w y)
    (hc : Change w w' c) : ∀ y m, (y, m) ∈ w'.removed → Stale w' y := by
  intro y m hmem
  cases hc with
  | same hlive hadded hremoved =>
    rw [hremoved] at hmem
    obtain ⟨i, j, hin, hidx, hpos, hle, hlater⟩ := hstale y m hmem
    exact ⟨i, j, hin, hidx, hpos, by omega, by rw [hlive]; exact hlater⟩
  | @register a i₀ j₀ y₀ _ _ hserial _ _ hlive hadded hremoved =>
    rw [hremoved] at hmem
    obtain ⟨i, j, hin, hidx, hpos, hle, hlater⟩ := hstale y m hmem
    refine ⟨i, j, hin, hidx, hpos, by omega, ?_⟩
    intro z hz
    rw [hlive] at hz
    split at hz
    · rw [← Option.some.inj hz, hserial]
      omega
    · exact hlater z hz
  | @unregister i₀ j₀ y₀ hy₀ hlive hadded hremoved =>
    rw [hremoved] at hmem
    rcases List.mem_cons.mp hmem with heq | hmem
    · cases heq
      obtain ⟨hpos, hlt, hj, _⟩ := hinv.inside i₀ j₀ y hy₀
      obtain ⟨hspos, hsle⟩ := hinv.serial i₀ j₀ y hy₀
      refine ⟨i₀, j₀, ⟨hpos, hlt, hj⟩, hinv.index i₀ j₀ y hy₀, hspos, by omega, ?_⟩
      intro z hz
      rw [hlive, if_pos ⟨rfl, rfl⟩] at hz
      cases hz
    · obtain ⟨i, j, hin, hidx, hpos, hle, hlater⟩ := hstale y m hmem
      refine ⟨i, j, hin, hidx, hpos, by omega, ?_⟩
      intro z hz
      rw [hlive] at hz
      split at hz
      · cases hz
      · exact hlater z hz

end

/-! ## The round trip -/

/-- What the callers of the server may rely on. -/
structure RoundTrip (w : World) : Prop where
  /-- A new index is no other symbol's, and the symbol is registered under it. -/
  entered : ∀ a fxnIdx, (addSymbol w.obj a).1 = .ok fxnIdx →
    (∀ i j y, w.live i j = some y → y.index ≠ fxnIdx) ∧
    ∃ name i j, a.funcName = some name ∧
      (w.call (.add a)).live i j = some ⟨name, a.addr, fxnIdx, w.added + 1⟩
  /-- It stays so until the name is removed. -/
  kept : ∀ i j y, w.live i j = some y → ∀ c, c ≠ .remove true (some y.name) →
    (w.call c).live i j = some y
  removed : ∀ i j y, w.live i j = some y →
    (w.call (.remove true (some y.name))).live i j = none ∧
    (y, w.added) ∈ (w.call (.remove true (some y.name))).removed
  fxnAddr : ∀ i j y, w.live i j = some y →
    ∀ beyond, getFxnAddr beyond w.obj y.index = .ok y.addr
  symIdx : ∀ i j y, w.live i j = some y → getSymIdx w.obj y.name = .ok y.index
  /-- The index of a removed symbol is refused while its key has not come back. -/
  refused : ∀ y m, (y, m) ∈ w.removed → w.added < y.serial + 2047 →
    ∀ beyond, getFxnAddr beyond w.obj y.index = .error eInvalidFxnIdx

section

variable {w : World}

variable {i j : Nat} {y : Symbol}

theorem Inv.getFxnAddr_live (h : Inv w) (hy : w.live i j = some y)
    (beyond : Nat → Nat → FxnTabElem) :
    getFxnAddr beyond w.obj y.index = .ok y.addr := by
  obtain ⟨hdyn, hkey, htab, hoff⟩ := h.fields hy
  obtain ⟨hpos, hlt, hj, _⟩ := h.inside i j y hy
  obtain ⟨tab, hfxnTab, hslot⟩ := slot_eq_some.mp (h.slot hy).1
  unfold getFxnAddr
  simp only [hdyn, hkey, htab, hoff, hpos, hlt, hj, hfxnTab, hslot, and_self, if_true,
    Bool.false_eq_true, if_false, ne_eq, not_true_eq_false]

theorem getSymIdx_live (h : Inv w) (hn : Names w) (hy : w.live i j = some y) :
    getSymIdx w.obj y.name = .ok y.index := by
  have hstatic : w.obj.fxnTabStatic.findIdx? (fun e => e.name == some y.name) = none := by
    rw [List.findIdx?_eq_none_iff]
    intro slot hslot
    simpa using hn.notStatic i j y hy slot hslot
  unfold getSymIdx
  rw [hstatic]
  cases hfind : findName w.obj y.name with
  | none =>
    obtain ⟨hpos, hlt, hj, _⟩ := h.inside i j y hy
    exact absurd rfl (findName_eq_none hfind ⟨hpos, hlt⟩ hj (h.slot hy).1)
  | some r =>
    obtain ⟨i', j', e⟩ := r
    obtain ⟨z, hz, hname, hidx⟩ := h.findName hfind
    obtain ⟨rfl, rfl⟩ := hn.unique i' j' z i j y hz hy hname
    rw [hy] at hz
    rw [Option.some.inj hz]
    exact congrArg Except.ok hidx

theorem getFxnAddr_stale (h : Inv w) (hy : Stale w y) (hlt : w.added < y.serial + 2047)
    (beyond : Nat → Nat → FxnTabElem) :
    getFxnAddr beyond w.obj y.index = .error eInvalidFxnIdx := by
  obtain ⟨i, j, ⟨hpos, hi, hj⟩, hidx, hspos, _, hlater⟩ := hy
  obtain ⟨hdyn, hkey, htab, hoff⟩ := fields_fxnIndex (keyAfter_le y.serial)
    (show i < 16 by unfold maxTables at hi; omega) (Nat.lt_of_lt_of_le hj (tabCount_le hi))
  unfold getFxnAddr
  simp only [hidx, hdyn, hkey, htab, hoff, hpos, hi, hj, and_self, if_true, Bool.false_eq_true,
    if_false]
  cases hfxnTab : w.obj.fxnTab i with
  | none => rfl
  | some tab =>
    have hholds := h.slots i j (tab j) (slot_eq_some.mpr ⟨tab, hfxnTab, rfl⟩) hj
    have hne : keyAfter y.serial ≠ (tab j).key := by
      cases hz : w.live i j with
      | none =>
        rw [hz] at hholds
        rw [hholds.2]
        exact keyAfter_ne_zero hspos
      | some z =>
        rw [hz] at hholds
        rw [hholds.2.2.2]
        have := (h.serial i j z hz).2
        exact keyAfter_inj hspos (hlater z hz) (by omega)
    exact if_pos hne

theorem call_kept (h : Inv w) (hy : w.live i j = some y) {c : Call}
    (hc : c ≠ .remove true (some y.name)) : (w.call c).live i j = some y := by
  cases (call_spec h c).2.2 with
  | same hlive _ _ => rw [hlive, hy]
  | register _ _ _ _ hfree hlive _ _ =>
    rw [hlive, if_neg, hy]
    rintro ⟨rfl, rfl⟩
    rw [hy] at hfree
    cases hfree
  | unregister hz hlive _ _ =>
    rw [hlive, if_neg, hy]
    rintro ⟨rfl, rfl⟩
    rw [hy] at hz
    rw [Option.some.inj hz] at hc
    exact hc rfl

theorem call_entered (h : Inv w) {a : AddArgs} {fxnIdx : UInt32}
    (hok : (addSymbol w.obj a).1 = .ok fxnIdx) :
    (∀ i j y, w.live i j = some y → y.index ≠ fxnIdx) ∧
    ∃ name i j, a.funcName = some name ∧
      (w.call (.add a)).live i j = some ⟨name, a.addr, fxnIdx, w.added + 1⟩ := by
  have hadded : (w.call (.add a)).added = w.added + 1 := by
    cases hadd : addSymbol w.obj a with
    | mk result o =>
      rw [hadd] at hok
      cases hok
      simp only [World.call, hadd]
  obtain ⟨hinv, _, hchange⟩ := call_spec h (.add a)
  cases hchange with
  | same _ hsame _ => omega
  | @register _ i₀ j₀ y₀ hname haddr hserial hok' hfree hlive _ _ =>
    obtain ⟨name₀, addr₀, index₀, serial₀⟩ := y₀
    obtain rfl : index₀ = fxnIdx := by
      rw [hok'] at hok
      exact Except.ok.inj hok
    have hnew : (w.call (.add a)).live i₀ j₀ = some ⟨name₀, addr₀, index₀, serial₀⟩ := by
      rw [hlive, if_pos ⟨rfl, rfl⟩]
    refine ⟨?_, name₀, i₀, j₀, hname, ?_⟩
    · -- one index names one slot, and the slot was free
      intro i j y hy heq
      obtain ⟨_, _, htab, hoff⟩ := hinv.fields hnew
      obtain ⟨_, _, htab', hoff'⟩ := h.fields hy
      rw [heq] at htab' hoff'
      obtain rfl : i₀ = i := htab.symm.trans htab'
      obtain rfl : j₀ = j := hoff.symm.trans hoff'
      rw [hfree] at hy
      cases hy
    · rw [hnew]
      show some (Symbol.mk name₀ addr₀ index₀ serial₀) = _
      rw [show addr₀ = a.addr from haddr, show serial₀ = w.added + 1 from hserial]

theorem call_removed (h : Inv w) (hn : Names w) (hy : w.live i j = some y) :
    (w.call (.remove true (some y.name))).live i j = none ∧
    (y, w.added) ∈ (w.call (.remove true (some y.name))).removed := by
  obtain ⟨hdyn, _, htab, hoff⟩ := h.fields hy
  have hsym := getSymIdx_live h hn hy
  simp only [World.call, removeSymbol, hsym, hdyn, Bool.true_eq_false, Bool.false_eq_true,
    if_false, if_true, Option.getD_some, setLive, htab, hoff, hy, and_self, true_and]
  exact List.mem_cons_self

end

/-- For every sequence of additions and removals in which the registered names are different. -/
theorem symbols_roundTrip (fxns : List (String × UInt32)) (calls : List Call) (w : World)
    (hfresh : Guarded step FreshName (World.create fxns) calls)
    (h : run step (World.create fxns) calls = some w) : RoundTrip w := by
  have hall : Inv w ∧ Names w ∧ ∀ y m, (y, m) ∈ w.removed → Stale w y := by
    refine hfresh.run_induct
      (I := fun w => Inv w ∧ Names w ∧ ∀ y m, (y, m) ∈ w.removed → Stale w y) ?_ ?_ h
    · intro s c s' hs hc hstep
      obtain ⟨hinv, hn, hstale⟩ := hs
      rw [← Option.some.inj hstep]
      obtain ⟨hinv', hstatic, hchange⟩ := call_spec hinv c
      exact ⟨hinv', hn.change hc hstatic hchange, Stale.change hinv hstale hchange⟩
    · refine ⟨inv_create fxns, ⟨?_, ?_⟩, ?_⟩
      · intro i j y i' j' z hy
        cases hy
      · intro i j y hy
        cases hy
      · intro y m hmem
        cases hmem
  obtain ⟨hinv, hn, hstale⟩ := hall
  exact
    { entered := fun a fxnIdx hok => call_entered hinv hok
      kept := fun i j y hy c hc => call_kept hinv hy hc
      removed := fun i j y hy => call_removed hinv hn hy
      fxnAddr := fun i j y hy beyond => hinv.getFxnAddr_live hy beyond
      symIdx := fun i j y hy => getSymIdx_live hinv hn hy
      refused := fun y m hmem hlt beyond => getFxnAddr_stale hinv (hstale y m hmem) hlt beyond }

/-- Two functions are added and one of them is removed. -/
def threeCalls : List Call :=
  [.add { funcName := some "f", addr := 0x8000 }, .add { funcName := some "g", addr := 0x9000 },
    .remove true (some "f")]

theorem symbols_roundTrip_threeCalls :
    ∃ w, run step (World.create []) threeCalls = some w ∧ RoundTrip w ∧
      getFxnAddr (fun _ _ => .empty) w.obj 0x7FE01001 = .ok 0x9000 := by
  refine ⟨_, rfl, symbols_roundTrip [] threeCalls _ ?_ rfl, rfl⟩
  refine .cons ?_ rfl (.cons ?_ rfl (.cons trivial rfl trivial))
  · intro name fxnIdx _ _
    refine ⟨?_, ?_⟩
    · intro i j y hy
      cases hy
    · intro slot hslot
      cases hslot
  · intro name fxnIdx hname _
    cases hname
    refine ⟨?_, ?_⟩
    · intro i j y hy
      have hlive : some y = if i = 1 ∧ j = 0 then some ⟨"f", 0x8000, 0x7FF01000, 1⟩ else none :=
        hy.symm
      split at hlive
      · cases hlive
        decide
      · cases hlive
    · intro slot hslot
      cases hslot

/-! ## A key that comes back -/

def addX : Call := .add { funcName := some "x", addr := 0x8000 }
def addA : Call := .add { funcName := some "a", addr := 0x9000 }
def addY : Call := .add { funcName := some "y", addr := 0xA000 }

/-- The symbol `x`, in the first slot. -/
def symbolX : Symbol := ⟨"x", 0x8000, 0x7FF01000, 1⟩

/-- The tables with `x` alone, after `k` other symbols have come and gone. -/
def churned (k : Nat) (removed : List (Symbol × Nat)) : World where
  obj := { ((World.create []).call addX).obj with key := keyAfter (k + 1) }
  live := fun i j => if i = 1 ∧ j = 0 then some symbolX else none
  added := k + 1
  removed := removed

/-- Another symbol comes and goes `n` times, then `x` is removed and `y` takes its slot. -/
def reuse : Nat → List Call
  | 0 => [.remove true (some "x"), addY]
  | n + 1 => addA :: .remove true (some "a") :: reuse n

theorem churned_freshName {k : Nat} {removed : List (Symbol × Nat)} {a : AddArgs}
    (ha : a.funcName ≠ some "x") : FreshName (churned k removed) (.add a) := by
  intro name fxnIdx hname _
  refine ⟨?_, ?_⟩
  · intro i j y hy
    have hlive : (if i = 1 ∧ j = 0 then some symbolX else none) = some y := hy
    split at hlive
    · cases hlive
      intro heq
      exact ha (hname.trans (congrArg some heq.symm))
    · cases hlive
  · intro slot hslot
    cases hslot

theorem Object.ext_slot {o o' : Object} (hstatic : o.fxnTabStatic = o'.fxnTabStatic)
    (hkey : o.key = o'.key) (hslot : ∀ i j, o.slot i j = o'.slot i j) : o = o' := by
  obtain ⟨s, t, k⟩ := o
  obtain ⟨s', t', k'⟩ := o'
  have htab : t = t' := by
    funext i
    have hi : ∀ j, (t i).map (fun tab => tab j) = (t' i).map (fun tab => tab j) := hslot i
    cases hti : t i with
    | none =>
      have := hi 0
      rw [hti] at this
      exact (Option.map_eq_none_iff.mp this.symm).symm
    | some tab =>
      rw [hti] at hi
      obtain ⟨tab', htab', _⟩ := Option.map_eq_some_iff.mp (hi 0).symm
      rw [htab'] at hi ⊢
      congr
      funext j
      exact Option.some.inj (hi j)
  obtain rfl : s = s' := hstatic
  obtain rfl : k = k' := hkey
  rw [htab]

theorem churned_pair (k : Nat) (removed : List (Symbol × Nat)) :
    ∃ removed', ((churned k removed).call addA).call (.remove true (some "a")) =
      churned (k + 1) removed' := by
  obtain ⟨hdyn, _, htab, hoff⟩ :=
    fields_fxnIndex (i := 1) (j := 1) (keyAfter_le (k + 2)) (by decide) (by decide)
  have hsym : getSymIdx ((churned k removed).call addA).obj "a" =
      .ok (fxnIndex (keyAfter (k + 2)) 1 1) := rfl
  have hcall : ((churned k removed).call addA).call (.remove true (some "a")) =
      { (churned k removed).call addA with
        obj := ((churned k removed).call addA).obj.setSlot 1 1 fun _ => .empty
        live := setLive ((churned k removed).call addA).live (fxnIndex (keyAfter (k + 2)) 1 1) none
        removed := (((churned k removed).call addA).live 1 1).toList.map (fun y => (y, k + 2))
          ++ removed } := by
    generalize hw : (churned k removed).call addA = w at hsym
    have hadded : w.added = k + 2 ∧ w.removed = removed := by
      rw [← hw]
      exact ⟨rfl, rfl⟩
    simp only [World.call, removeSymbol, hsym, hdyn, htab, hoff, hadded, Option.getD_some,
      Bool.true_eq_false, Bool.false_eq_true, if_false, if_true]
  refine ⟨_, hcall.trans (World.ext ?_ ?_ rfl rfl)⟩
  · obtain ⟨result, o', e', hins, hslot, _⟩ := insertSymbol_spec (i := 1) (j := 1)
      (e := .empty) (churned k removed).obj { funcName := some "a", addr := 0x9000 } "a" rfl
    have hobj : ((churned k removed).call addA).obj = o' := congrArg Prod.snd hins
    refine Object.ext_slot ?_ ?_ ?_
    · show (Object.setSlot _ 1 1 _).fxnTabStatic = _
      rw [setSlot_fxnTabStatic]
      rfl
    · show (Object.setSlot _ 1 1 _).key = _
      rw [setSlot_key]
      rfl
    · intro i j
      dsimp only
      rw [slot_setSlot]
      by_cases hij : i = 1 ∧ j = 1
      · rw [if_pos hij, hij.1, hij.2]
        rfl
      · rw [if_neg hij, hobj, hslot, if_neg hij]
        rfl
  · funext i j
    show (if i = tabIdx _ ∧ j = tabOff _ then none else
      if i = tabIdx (fxnIndex (keyAfter (k + 2)) 1 1) ∧
        j = tabOff (fxnIndex (keyAfter (k + 2)) 1 1) then _ else
      if i = 1 ∧ j = 0 then some symbolX else none) = if i = 1 ∧ j = 0 then some symbolX else none
    rw [htab, hoff]
    split
    next h =>
      rw [if_neg]
      omega
    next => rfl

theorem churned_reuse (k : Nat) (removed : List (Symbol × Nat)) :
    ∃ w, run step (churned k removed) (reuse 0) = some w ∧
      Guarded step FreshName (churned k removed) (reuse 0) ∧ (symbolX, k + 1) ∈ w.removed ∧
      w.added = k + 2 ∧ w.obj.slot 1 0 = some ⟨some "y", 0xA000, keyAfter (k + 2)⟩ := by
  refine ⟨_, rfl, .cons trivial rfl (.cons ?_ rfl trivial), List.mem_cons_self, rfl, rfl⟩
  intro name fxnIdx _ _
  refine ⟨?_, ?_⟩
  · intro i j y hy
    have hlive : (if i = 1 ∧ j = 0 then none else if i = 1 ∧ j = 0 then some symbolX else none) =
        some y := hy
    split at hlive
    · cases hlive
    · cases hlive
  · intro slot hslot
    cases hslot

theorem run_reuse (n k : Nat) (removed : List (Symbol × Nat)) :
    ∃ w, run step (churned k removed) (reuse n) = some w ∧
      Guarded step FreshName (churned k removed) (reuse n) ∧ (symbolX, k + n + 1) ∈ w.removed ∧
      w.added = k + n + 2 ∧
      w.obj.slot 1 0 = some ⟨some "y", 0xA000, keyAfter (k + n + 2)⟩ := by
  induction n generalizing k removed with
  | zero => exact churned_reuse k removed
  | succ n ih =>
    obtain ⟨removed', hpair⟩ := churned_pair k removed
    obtain ⟨w, hrun, hfresh, hmem, hadded, hslot⟩ := ih (k + 1) removed'
    have hk : k + 1 + n = k + (n + 1) := by omega
    rw [hk] at hmem hadded hslot
    refine ⟨w, ?_, ?_, hmem, hadded, hslot⟩
    · show run step (((churned k removed).call addA).call (.remove true (some "a"))) (reuse n) = _
      rw [hpair]
      exact hrun
    · refine .cons (churned_freshName (by decide)) rfl (.cons trivial rfl ?_)
      rw [hpair]
      exact hfresh

/-- 2047 symbols after `x` its key comes back. With `x` removed just before, its index is accepted
after one further addition, and leads to `y`. -/
theorem index_back_after_one_addition :
    ¬ ∀ (fxns : List (String × UInt32)) (calls : List Call) (w : World),
      Guarded step FreshName (World.create fxns) calls →
      run step (World.create fxns) calls = some w →
      ∀ y m, (y, m) ∈ w.removed → w.added < m + 2047 →
        ∀ beyond, getFxnAddr beyond w.obj y.index = .error eInvalidFxnIdx := by
  intro hall
  obtain ⟨w, hrun, hfresh, hmem, hadded, hslot⟩ := run_reuse 2046 0 []
  have hfirst : step (World.create []) addX = some (churned 0 []) := rfl
  have hkey : keyAfter 2048 = 0x7FF := UInt16.toNat_inj.mp (keyAfter_toNat 2047)
  obtain ⟨tab, htab, hslot⟩ := slot_eq_some.mp hslot
  have hfxn : getFxnAddr (fun _ _ => .empty) w.obj symbolX.index = .ok 0xA000 := by
    have htab' : w.obj.fxnTab (tabIdx symbolX.index) = some tab := htab
    rw [getFxnAddr, if_neg (by decide), if_pos (by decide), htab']
    show (if 0x7FF ≠ (tab 0).key then _ else Except.ok (tab 0).addr) = _
    rw [hslot, hkey]
    rfl
  have hrefused := hall [] (addX :: reuse 2046) w ?_ (by rw [run_cons hfirst, hrun]) symbolX 2047
    hmem (by omega) (fun _ _ => .empty)
  · rw [hfxn] at hrefused
    cases hrefused
  · refine .cons ?_ hfirst hfresh
    intro name fxnIdx _ _
    refine ⟨?_, ?_⟩
    · intro i j y hy
      cases hy
    · intro slot hslot
      cases hslot

end Omap4Hal.Rcm.Symbols

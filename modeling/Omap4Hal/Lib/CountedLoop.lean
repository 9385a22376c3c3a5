import Mathlib.Data.List.Nodup
import Omap4Hal.Lib.Loop

/- Loops that count up to a bound with an unsigned counter of 16 bits. The counter goes through
   the numbers below the bound and leaves the loop there, if it can hold the bound
   (`for16_eq`).

   In a pass over the cells of a state, once each, a step looks at the state through the cells
   (`view`), works on its own cell and leaves the others alone; after the pass, a cell is what its
   own step has made of it (`sweep_mem`), or what it was (`sweep_not_mem`). -/
namespace Omap4Hal.Lib

variable {σ : Type}

def forPass (n : UInt32) (body : UInt16 → σ → Option σ) (s : UInt16 × σ) :
    Option (Flow (UInt16 × σ)) :=
  if s.1.toUInt32 < n then (body s.1 s.2).map fun t => .next (s.1 + 1, t) else some (.stop s)

/-- `for (i = 0; i < n; i++)`. A loop that is not left after as many passes as the counter has
values is never left. -/
def for16 (n : UInt32) (body : UInt16 → σ → Option σ) (s : σ) : Option σ :=
  (loopM (forPass n body) 0x10000 (0, s)).map Prod.snd

variable {n : UInt32} {body : UInt16 → σ → Option σ}

theorem toNat_ofNat16 {k : Nat} (hk : k ≤ 65535) : (UInt16.ofNat k).toNat = k :=
  UInt16.toNat_ofNat_of_lt (Nat.lt_succ_of_le hk)

theorem loopM_forPass (hn : n.toNat ≤ 65535) {f : Nat → σ}
    (hbody : ∀ k < n.toNat, body (UInt16.ofNat k) (f k) = some (f (k + 1))) {k fuel : Nat}
    (hk : k ≤ n.toNat) (hfuel : n.toNat - k < fuel) :
    loopM (forPass n body) fuel (UInt16.ofNat k, f k) =
      some (UInt16.ofNat n.toNat, f n.toNat) := by
  induction fuel generalizing k with
  | zero => omega
  | succ fuel ih =>
    have hcounter : (UInt16.ofNat k).toUInt32 < n ↔ k < n.toNat := by
      rw [UInt32.lt_iff_toNat_lt, UInt16.toNat_toUInt32, toNat_ofNat16 (by omega)]
    by_cases hlt : k < n.toNat
    · have hpass : forPass n body (UInt16.ofNat k, f k) =
          some (.next (UInt16.ofNat (k + 1), f (k + 1))) := by
        rw [forPass, if_pos (hcounter.mpr hlt), hbody k hlt, UInt16.ofNat_add]
        rfl
      rw [loopM_next hpass]
      exact ih hlt (by omega)
    · obtain rfl : k = n.toNat := by omega
      exact loopM_stop (if_neg fun h => hlt (hcounter.mp h))

/-- `f k` is the state after `k` passes. -/
theorem for16_eq (hn : n.toNat ≤ 65535) {f : Nat → σ}
    (hbody : ∀ k < n.toNat, body (UInt16.ofNat k) (f k) = some (f (k + 1))) :
    for16 n body (f 0) = some (f n.toNat) := by
  have hloop := loopM_forPass hn hbody (Nat.zero_le _)
    (show n.toNat - 0 < 0x10000 by omega)
  rw [for16]
  exact congrArg (Option.map Prod.snd) hloop

/-! ## Passes over cells -/

section Sweep

variable {σ ι β : Type} {step : σ → ι → σ} {view : σ → ι → β} {work : ι → β → β}

structure CellWise (step : σ → ι → σ) (view : σ → ι → β) (work : ι → β → β) : Prop where
  own : ∀ s i, view (step s i) i = work i (view s i)
  other : ∀ s i j, j ≠ i → view (step s i) j = view s j

theorem CellWise.sweep_not_mem (h : CellWise step view work) {is : List ι} {j : ι} (hj : j ∉ is)
    (s : σ) : view (is.foldl step s) j = view s j := by
  induction is generalizing s with
  | nil => rfl
  | cons i is ih =>
    rw [List.mem_cons, not_or] at hj
    rw [List.foldl_cons, ih hj.2, h.other s i j hj.1]

theorem CellWise.sweep_mem (h : CellWise step view work) {is : List ι} (hnodup : is.Nodup)
    {j : ι} (hj : j ∈ is) (s : σ) : view (is.foldl step s) j = work j (view s j) := by
  induction is generalizing s with
  | nil => exact absurd hj List.not_mem_nil
  | cons i is ih =>
    obtain ⟨hi, hnodup⟩ := List.nodup_cons.mp hnodup
    rw [List.foldl_cons]
    rcases List.mem_cons.mp hj with rfl | hmem
    · rw [h.sweep_not_mem hi, h.own]
    · have hne : j ≠ i := by
        rintro rfl
        exact hi hmem
      rw [ih hnodup hmem, h.other s i j hne]

end Sweep

end Omap4Hal.Lib

import Mathlib.Algebra.GroupWithZero.Nat
import Mathlib.Data.List.Chain

/- Blocks that tile an interval, some of them in use. Where no two free blocks stand side by side,
   an interval that meets no block in use lies in one free block (`Tiles.free_interval`), and a
   tiling with nothing in use is one block.

   Segments of any kind that are laid one after another have the sum of the sizes before them
   as their offset (`offsetAt`). -/
namespace Omap4Hal.Lib

structure Block where
  addr : Nat
  size : Nat
  used : Bool
  deriving DecidableEq, Repr

/-- The blocks follow each other from `a` to `e`. -/
def Tiles : Nat → List Block → Nat → Prop
  | a, [], e => a = e
  | a, b :: bs, e => b.addr = a ∧ Tiles (a + b.size) bs e

/-- Of two blocks side by side one is in use. -/
def Merged (bs : List Block) : Prop := bs.IsChain fun x y => x.used = true ∨ y.used = true

/-- The interval of `n` from `x` on does not meet the block. -/
def Block.Apart (b : Block) (x n : Nat) : Prop := x + n ≤ b.addr ∨ b.addr + b.size ≤ x

variable {a e : Nat} {bs cs : List Block}

theorem tiles_append : Tiles a (bs ++ cs) e ↔ ∃ m, Tiles a bs m ∧ Tiles m cs e := by
  induction bs generalizing a with
  | nil => simp [Tiles]
  | cons b bs ih =>
    simp only [List.cons_append, Tiles, ih]
    constructor
    · rintro ⟨haddr, m, h₁, h₂⟩
      exact ⟨m, ⟨haddr, h₁⟩, h₂⟩
    · rintro ⟨m, ⟨haddr, h₁⟩, h₂⟩
      exact ⟨haddr, m, h₁, h₂⟩

theorem Tiles.le (h : Tiles a bs e) : a ≤ e := by
  induction bs generalizing a with
  | nil => exact Nat.le_of_eq h
  | cons b bs ih =>
    have hle := ih h.2
    omega

theorem Tiles.end_unique {e' : Nat} (h : Tiles a bs e) (h' : Tiles a bs e') : e = e' := by
  induction bs generalizing a with
  | nil => exact h.symm.trans h'
  | cons b bs ih => exact ih h.2 h'.2

variable {b : Block}

theorem Tiles.inside (h : Tiles a bs e) (hb : b ∈ bs) :
    a ≤ b.addr ∧ b.addr + b.size ≤ e := by
  induction bs generalizing a with
  | nil => cases hb
  | cons c bs ih =>
    obtain ⟨haddr, hrest⟩ := h
    rcases List.mem_cons.mp hb with rfl | hb
    · have hle := hrest.le
      omega
    · have hin := ih hrest hb
      omega

theorem Tiles.ordered (h : Tiles a bs e) : bs.Pairwise fun x y => x.addr + x.size ≤ y.addr := by
  induction bs generalizing a with
  | nil => exact List.Pairwise.nil
  | cons b bs ih =>
    obtain ⟨haddr, hrest⟩ := h
    refine List.pairwise_cons.mpr ⟨?_, ih hrest⟩
    intro c hc
    have hin := hrest.inside hc
    omega

theorem Merged.tail (h : Merged (b :: bs)) : Merged bs := List.IsChain.tail h

theorem tiles_append_cons :
    Tiles a (bs ++ b :: cs) e ↔ Tiles a bs b.addr ∧ Tiles (b.addr + b.size) cs e := by
  rw [tiles_append]
  constructor
  · rintro ⟨m, hbs, rfl, hcs⟩
    exact ⟨hbs, hcs⟩
  · rintro ⟨hbs, hcs⟩
    exact ⟨b.addr, hbs, rfl, hcs⟩

theorem merged_append_cons :
    Merged (bs ++ b :: cs) ↔ Merged bs ∧ Merged cs ∧
      (∀ x ∈ bs.getLast?, x.used = true ∨ b.used = true) ∧
      ∀ y ∈ cs.head?, b.used = true ∨ y.used = true := by
  simp only [Merged, List.isChain_append, List.isChain_cons, List.head?_cons, Option.mem_def,
    Option.some.injEq, forall_eq']
  tauto

theorem Tiles.free_interval (h : Tiles a bs e) (hmerged : Merged bs)
    (hpos : ∀ b ∈ bs, b.used = true → 0 < b.size) {x n : Nat} (hn : 0 < n) (hx : a ≤ x)
    (hend : x + n ≤ e) (hfree : ∀ b ∈ bs, b.used = true → b.Apart x n) :
    ∃ b ∈ bs, b.used = false ∧ b.addr ≤ x ∧ x + n ≤ b.addr + b.size := by
  induction bs generalizing a with
  | nil =>
    have heq : a = e := h
    omega
  | cons b bs ih =>
    obtain ⟨haddr, hrest⟩ := h
    by_cases hafter : a + b.size ≤ x
    · obtain ⟨c, hc, hin⟩ := ih hrest hmerged.tail
        (fun c hc => hpos c (List.mem_cons_of_mem _ hc)) hafter
        (fun c hc => hfree c (List.mem_cons_of_mem _ hc))
      exact ⟨c, List.mem_cons_of_mem _ hc, hin⟩
    · have hunused : b.used = false := by
        by_contra hused
        have hapart : x + n ≤ b.addr ∨ b.addr + b.size ≤ x :=
          hfree b List.mem_cons_self (by simpa using hused)
        omega
      refine ⟨b, List.mem_cons_self, hunused, by omega, ?_⟩
      by_contra hlong
      cases bs with
      | nil =>
        have heq : a + b.size = e := hrest
        omega
      | cons c cs =>
        -- the next block is in use and meets the interval
        have hused : c.used = true := by
          have hpair := (List.isChain_cons_cons.mp hmerged).1
          simpa [hunused] using hpair
        have hc : c ∈ b :: c :: cs := by simp
        have hcpos := hpos c hc hused
        have hcaddr := hrest.1
        have hapart : x + n ≤ c.addr ∨ c.addr + c.size ≤ x := hfree c hc hused
        omega

theorem Merged.single (h : Merged bs) (hfree : ∀ b ∈ bs, b.used = false) : bs.length ≤ 1 := by
  match bs, h with
  | [], _ => simp
  | [b], _ => simp
  | b :: c :: cs, h =>
    have hpair := (List.isChain_cons_cons.mp h).1
    rw [hfree b (by simp), hfree c (by simp)] at hpair
    simp at hpair

/-! ## Segments -/

section Segments

variable {α : Type} (size : α → Nat)

def offsetAt (l : List α) (i : Nat) : Nat := ((l.take i).map size).sum

def wholeSize (l : List α) : Nat := (l.map size).sum

variable {size} {l : List α} {b : α}

@[simp] theorem offsetAt_zero (l : List α) : offsetAt size l 0 = 0 := rfl

@[simp] theorem offsetAt_cons_succ (b : α) (l : List α) (i : Nat) :
    offsetAt size (b :: l) (i + 1) = size b + offsetAt size l i := by
  rw [offsetAt, List.take_succ_cons, List.map_cons, List.sum_cons, offsetAt]

@[simp] theorem wholeSize_cons (b : α) (l : List α) :
    wholeSize size (b :: l) = size b + wholeSize size l := by
  rw [wholeSize, List.map_cons, List.sum_cons, wholeSize]

end Segments

end Omap4Hal.Lib

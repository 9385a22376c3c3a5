import Mathlib.Data.Nat.ModEq
import Omap4Hal.Lib.Tiling

/- Intervals covered by aligned pages of a few sizes, of which the smaller divide the larger. Each
   page is the largest that begins where the last one ended and does not go beyond the end. Then a
   page of any size that lies within the interval at a multiple of its size is within a page of
   the cover (`GreedyPages.contains`); what is to divide the sizes of the cover is thus known from
   the interval. -/
namespace Omap4Hal.Lib

/-- The smaller sizes divide the larger. -/
structure PageSizes (sizes : List Nat) : Prop where
  pos : ∀ p ∈ sizes, 0 < p
  dvd : ∀ p ∈ sizes, ∀ q ∈ sizes, p ≤ q → p ∣ q

/-- A page of this size can begin at `a` with `n` left to cover. -/
def PageFits (a n p : Nat) : Prop := p ∣ a ∧ p ≤ n

/-- Each block has the size of the largest page that fits where it begins. -/
def GreedyPages (sizes : List Nat) (e : Nat) (bs : List Block) : Prop :=
  ∀ b ∈ bs, b.size ∈ sizes ∧ PageFits b.addr (e - b.addr) b.size ∧
    ∀ q ∈ sizes, PageFits b.addr (e - b.addr) q → q ≤ b.size

/-- A page of size `p` lies at a multiple of its size within the interval. -/
def PageWithin (a e p : Nat) : Prop := ∃ x, p ∣ x ∧ a ≤ x ∧ x + p ≤ e

variable {sizes : List Nat} {a e p : Nat} {bs : List Block}

theorem GreedyPages.tail {b : Block} (h : GreedyPages sizes e (b :: bs)) :
    GreedyPages sizes e bs := fun c hc => h c (List.mem_cons_of_mem b hc)

theorem add_le_of_dvd_of_lt {x y : Nat} (hx : p ∣ x) (hy : p ∣ y) (hlt : x < y) : x + p ≤ y := by
  have hle := Nat.le_of_dvd (Nat.sub_pos_of_lt hlt) (Nat.dvd_sub hy hx)
  omega

/-- A page within the interval is not larger than all pages of the cover. -/
theorem GreedyPages.contains (hsizes : PageSizes sizes) (hp : p ∈ sizes) (ht : Tiles a bs e)
    (hg : GreedyPages sizes e bs) (hin : PageWithin a e p) : ∃ b ∈ bs, p ≤ b.size := by
  induction bs generalizing a with
  | nil =>
    obtain ⟨x, -, hax, hxe⟩ := hin
    have heq : a = e := ht
    have hpos := hsizes.pos p hp
    omega
  | cons b bs ih =>
    by_cases hle : p ≤ b.size
    · exact ⟨b, List.mem_cons_self, hle⟩
    · obtain ⟨x, hdvd, hax, hxe⟩ := hin
      obtain ⟨haddr, hrest⟩ := ht
      obtain ⟨hmem, hfits, hlargest⟩ := hg b List.mem_cons_self
      -- the page does not begin here, or it would have been taken
      have hne : a ≠ x := by
        rintro rfl
        apply hle
        apply hlargest p hp
        rw [haddr]
        exact ⟨hdvd, by omega⟩
      -- hence it begins after the first block, whose size divides its own
      have hsmall := hsizes.dvd b.size hmem p hp (by omega)
      have hafter : a + b.size ≤ x := by
        apply add_le_of_dvd_of_lt (haddr ▸ hfits.1) (hsmall.trans hdvd)
        omega
      obtain ⟨c, hc, hpc⟩ := ih hrest hg.tail ⟨x, hdvd, hafter, hxe⟩
      exact ⟨c, List.mem_cons_of_mem b hc, hpc⟩

theorem GreedyPages.within (ht : Tiles a bs e) (hg : GreedyPages sizes e bs) {b : Block}
    (hb : b ∈ bs) : PageWithin a e b.size := by
  have hin := ht.inside hb
  exact ⟨b.addr, (hg b hb).2.1.1, hin.1, hin.2⟩

/-- Whether all sizes of the cover divide a number is decided by the interval. -/
theorem GreedyPages.forall_modEq_iff (hsizes : PageSizes sizes) (ht : Tiles a bs e)
    (hg : GreedyPages sizes e bs) {x y : Nat} :
    (∀ b ∈ bs, x ≡ y [MOD b.size]) ↔ ∀ p ∈ sizes, PageWithin a e p → x ≡ y [MOD p] := by
  constructor
  · intro h p hp hin
    obtain ⟨b, hb, hle⟩ := hg.contains hsizes hp ht hin
    exact (h b hb).of_dvd (hsizes.dvd p hp b.size (hg b hb).1 hle)
  · intro h b hb
    exact h b.size (hg b hb).1 (hg.within ht hb)

end Omap4Hal.Lib

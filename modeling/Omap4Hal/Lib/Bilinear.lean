import Mathlib.Algebra.Order.Ring.Nat

/- Bilinear interpolation with whole numbers. The point is `x` and `y` parts of `n` away from the
   first of four samples, and the weight of a sample is the product of the distances to the
   opposite sides. The weights sum up to `n * n`, and the value, rounded down, is between the
   smallest and the largest sample. -/
namespace Omap4Hal.Lib

variable {n x y : Nat}

/-- The weighted sum of the samples at the corners: `b` is beside `a`, `c` and `d` are below. -/
def bilinearSum (n x y a b c d : Nat) : Nat :=
  (n - x) * (n - y) * a + x * (n - y) * b + (n - x) * y * c + x * y * d

def bilinear (n x y a b c d : Nat) : Nat := bilinearSum n x y a b c d / (n * n)

theorem bilinear_weights (hx : x ≤ n) (hy : y ≤ n) :
    (n - x) * (n - y) + x * (n - y) + (n - x) * y + x * y = n * n := by
  calc (n - x) * (n - y) + x * (n - y) + (n - x) * y + x * y
      = (n - x + x) * (n - y) + (n - x + x) * y := by rw [add_mul, add_mul, add_assoc]
    _ = (n - x + x) * (n - y + y) := (mul_add _ _ _).symm
    _ = n * n := by rw [Nat.sub_add_cancel hx, Nat.sub_add_cancel hy]

theorem bilinearSum_const (hx : x ≤ n) (hy : y ≤ n) (a : Nat) :
    bilinearSum n x y a a a a = n * n * a := by
  rw [bilinearSum, ← bilinear_weights hx hy, add_mul, add_mul, add_mul]

variable {a b c d : Nat}

theorem bilinearSum_mono {a' b' c' d' : Nat} (ha : a ≤ a') (hb : b ≤ b') (hc : c ≤ c')
    (hd : d ≤ d') :
    bilinearSum n x y a b c d ≤ bilinearSum n x y a' b' c' d' := by
  unfold bilinearSum
  gcongr

theorem le_bilinear {lo : Nat} (hn : 0 < n) (hx : x ≤ n) (hy : y ≤ n) (ha : lo ≤ a) (hb : lo ≤ b)
    (hc : lo ≤ c) (hd : lo ≤ d) : lo ≤ bilinear n x y a b c d := by
  rw [bilinear, Nat.le_div_iff_mul_le (Nat.mul_pos hn hn), Nat.mul_comm, ← bilinearSum_const hx hy]
  exact bilinearSum_mono ha hb hc hd

theorem bilinearSum_le {hi : Nat} (hx : x ≤ n) (hy : y ≤ n) (ha : a ≤ hi) (hb : b ≤ hi)
    (hc : c ≤ hi) (hd : d ≤ hi) : bilinearSum n x y a b c d ≤ n * n * hi := by
  rw [← bilinearSum_const hx hy]
  exact bilinearSum_mono ha hb hc hd

theorem bilinear_le {hi : Nat} (hn : 0 < n) (hx : x ≤ n) (hy : y ≤ n) (ha : a ≤ hi) (hb : b ≤ hi)
    (hc : c ≤ hi) (hd : d ≤ hi) : bilinear n x y a b c d ≤ hi :=
  calc bilinearSum n x y a b c d / (n * n)
      ≤ n * n * hi / (n * n) := Nat.div_le_div_right (bilinearSum_le hx hy ha hb hc hd)
    _ = hi := Nat.mul_div_cancel_left hi (Nat.mul_pos hn hn)

theorem bilinear_between (hn : 0 < n) (hx : x ≤ n) (hy : y ≤ n) (a b c d : Nat) :
    min (min a b) (min c d) ≤ bilinear n x y a b c d ∧
      bilinear n x y a b c d ≤ max (max a b) (max c d) := by
  constructor
  · apply le_bilinear hn hx hy <;> omega
  · apply bilinear_le hn hx hy <;> omega

theorem bilinear_const (hn : 0 < n) (hx : x ≤ n) (hy : y ≤ n) (a : Nat) :
    bilinear n x y a a a a = a := by
  rw [bilinear, bilinearSum_const hx hy, Nat.mul_div_cancel_left a (Nat.mul_pos hn hn)]

end Omap4Hal.Lib

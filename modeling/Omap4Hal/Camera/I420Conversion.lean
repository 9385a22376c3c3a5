import Mathlib.Tactic.Ring
import Omap4Hal.Lib.ByteCopies

/- The conversion between semi-planar frames and I420 images (`ColorConvert.cpp` of
   libI420colorconvert): the bytes that are copied, with their offsets in the two buffers.

   The loops of `convertDecoderOutputToI420` round the halves of an odd width or height up, but the
   stride and the size of the planes down, so that the rows of a plane overlap
   (`i420_converts_iff`). -/
namespace Omap4Hal.Camera.I420Conversion

open Lib
open List (map_flatMap map_map mem_append_right mem_cons mem_flatMap mem_map mem_range mem_singleton
  range)

/-! ## The code -/

/-- `ARect`, with its last column and row inside. -/
structure ARect where
  left : Int
  top : Int
  right : Int
  bottom : Int

/-- `convertDecoderOutputToI420`: the offset in `dstBits` and the one in `srcBits` of every byte. -/
def convertDecoderOutputToI420 (srcWidth srcHeight : Int) (srcRect : ARect) : List (Int × Int) :=
  let pSrc_y := srcWidth * srcRect.top + srcRect.left
  let pSrc_uv := pSrc_y + srcWidth * (srcHeight - srcRect.top / 2)
  let dstWidth := srcRect.right - srcRect.left + 1
  let dstHeight := srcRect.bottom - srcRect.top + 1
  let dst_y_size := dstWidth * dstHeight
  let dst_uv_stride := dstWidth / 2
  let dst_uv_size := dstWidth / 2 * dstHeight / 2
  let pDst_u := dst_y_size
  let pDst_v := pDst_u + dst_uv_size
  let tmp := (dstWidth + 1) / 2
  rounds (fun p : Int × Int => (p.1 + srcWidth, p.2 + dstWidth))
    (fun (pSrc, pDst) => memcpy pDst pSrc dstWidth.toNat) dstHeight.toNat (pSrc_y, 0) ++
  rounds
    (fun p : Int × Int × Int => (p.1 + srcWidth, p.2.1 + dst_uv_stride, p.2.2 + dst_uv_stride))
    (fun (pSrc, pDst_u, pDst_v) => (range tmp.toNat).flatMap fun x : Nat =>
      [(pDst_u + x, pSrc + 2 * x), (pDst_v + x, pSrc + (2 * x + 1))])
    ((dstHeight + 1) / 2).toNat (pSrc_uv, pDst_u, pDst_v)

def convertI420ToEncoderInput (srcWidth srcHeight dstWidth dstHeight : Int) : List (Int × Int) :=
  let pSrc_u := srcWidth * srcHeight
  let pSrc_v := pSrc_u + srcWidth / 2 * (srcHeight / 2)
  let pDst_uv := dstWidth * dstHeight
  rounds (fun p : Int × Int => (p.1 + srcWidth, p.2 + dstWidth))
    (fun (pSrc, pDst) => memcpy pDst pSrc srcWidth.toNat) srcHeight.toNat (0, 0) ++
  rounds
    (fun p : Int × Int × Int => (p.1 + dstWidth, p.2.1 + srcWidth / 2, p.2.2 + srcWidth / 2))
    (fun (pDst, pSrc_u, pSrc_v) => (range (srcWidth / 2).toNat).flatMap fun j : Nat =>
      [(pDst + 2 * j, pSrc_u + j), (pDst + (2 * j + 1), pSrc_v + j)])
    (srcHeight / 2).toNat (pDst_uv, pSrc_u, pSrc_v)

/-! ## Layouts -/

def ARect.width (r : ARect) : Int := r.right - r.left + 1

def ARect.height (r : ARect) : Int := r.bottom - r.top + 1

/-- A luma sample, of a frame or of an image. -/
def lumaAt (width x y : Int) : Int := width * y + x

/-- The U sample of a block of a semi-planar frame; the V sample is behind it. -/
def frameU (width height i j : Int) : Int := width * height + width * j + 2 * i

/-- The U sample of a block of an I420 image. -/
def imageU (width height i j : Int) : Int := width * height + ((width + 1) / 2 * j + i)

def imageV (width height i j : Int) : Int :=
  width * height + (width + 1) / 2 * ((height + 1) / 2) + ((width + 1) / 2 * j + i)

def frameSize (width height : Int) : Int := width * height + width * (height / 2)

def imageSize (width height : Int) : Int := width * height + 2 * (width / 2 * (height / 2))

/-- A rectangle of a frame. -/
structure ARect.Inside (r : ARect) (width height : Int) : Prop where
  left : 0 ≤ r.left
  columns : r.left ≤ r.right
  right : r.right < width
  top : 0 ≤ r.top
  rows : r.top ≤ r.bottom
  bottom : r.bottom < height

/-- The rectangle of a semi-planar frame is taken over, each byte of it once. -/
structure Converts (width height : Int) (r : ARect) : Prop where
  once : ((convertDecoderOutputToI420 width height r).map Prod.fst).Nodup
  inside : ∀ c ∈ convertDecoderOutputToI420 width height r,
    0 ≤ c.2 ∧ c.2 < frameSize width height
  luma : ∀ (src dst : Int → UInt8) (x y : Int), 0 ≤ x → x < r.width → 0 ≤ y → y < r.height →
    perform src dst (convertDecoderOutputToI420 width height r) (lumaAt r.width x y) =
      src (lumaAt width (r.left + x) (r.top + y))
  chroma : ∀ (src dst : Int → UInt8) (i j : Int), 0 ≤ i → 2 * i < r.width → 0 ≤ j →
    2 * j < r.height →
      perform src dst (convertDecoderOutputToI420 width height r) (imageU r.width r.height i j) =
          src (frameU width height (r.left / 2 + i) (r.top / 2 + j)) ∧
        perform src dst (convertDecoderOutputToI420 width height r)
            (imageV r.width r.height i j) =
          src (frameU width height (r.left / 2 + i) (r.top / 2 + j) + 1)

/-! ## Rows and columns -/

/-- The rectangle of `w` columns and `h` rows. -/
def rect (left top w h : Nat) : ARect := ⟨left, top, left + w - 1, top + h - 1⟩

theorem decoder_eq (W H left top w h : Nat) :
    convertDecoderOutputToI420 W H (rect left top w h) =
      ((range h).flatMap fun y => (range w).map fun x =>
        ((0 : Int) + (w * y + x : Nat), (W * top + left : Int) + (W * y + x : Nat))) ++
      (range ((h + 1) / 2)).flatMap fun j => (range ((w + 1) / 2)).flatMap fun i =>
        [((w * h : Int) + (w / 2 * j + i : Nat),
            (W * top + left + W * (H - top / 2) : Int) + (W * j + 2 * i : Nat)),
          ((w * h + (w / 2 * h / 2 : Nat) : Int) + (w / 2 * j + i : Nat),
            (W * top + left + W * (H - top / 2) : Int) + (W * j + (2 * i + 1) : Nat))] := by
  have hwidth : (left + w - 1 : Int) - left + 1 = w := by omega
  have hheight : (top + h - 1 : Int) - top + 1 = h := by omega
  have hcolumns : (((w : Int) + 1) / 2).toNat = (w + 1) / 2 := by omega
  have hrows : (((h : Int) + 1) / 2).toNat = (h + 1) / 2 := by omega
  simp only [convertDecoderOutputToI420, rect, hwidth, hheight, hcolumns, hrows, Int.toNat_natCast,
    rounds_memcpy]
  congr 1
  rw [rounds_eq fun j : Nat => ((W * top + left + W * (H - top / 2) + W * j : Int),
    (w * h + w / 2 * j : Int), (w * h + w / 2 * h / 2 + w / 2 * j : Int))]
  · simp [Int.add_assoc]
  · simp
  · intro i
    simp only [Nat.cast_add, Nat.cast_one, Int.mul_add, Int.mul_one, Int.add_assoc]

theorem encoder_eq (w h W H : Nat) :
    convertI420ToEncoderInput w h W H =
      ((range h).flatMap fun y => (range w).map fun x =>
        ((0 : Int) + (W * y + x : Nat), (0 : Int) + (w * y + x : Nat))) ++
      (range (h / 2)).flatMap fun i => (range (w / 2)).flatMap fun j =>
        [((W * H : Int) + (W * i + 2 * j : Nat), (w * h : Int) + (w / 2 * i + j : Nat)),
          ((W * H : Int) + (W * i + (2 * j + 1) : Nat),
            (w * h + (w / 2 * (h / 2) : Nat) : Int) + (w / 2 * i + j : Nat))] := by
  have hcolumns : ((w : Int) / 2).toNat = w / 2 := by omega
  have hrows : ((h : Int) / 2).toNat = h / 2 := by omega
  simp only [convertI420ToEncoderInput, hcolumns, hrows, Int.toNat_natCast, rounds_memcpy]
  congr 1
  rw [rounds_eq fun i : Nat => ((W * H + W * i : Int), (w * h + w / 2 * i : Int),
    (w * h + w / 2 * (h / 2) + w / 2 * i : Int))]
  · simp [Int.add_assoc]
  · simp
  · intro i
    simp only [Nat.cast_add, Nat.cast_one, Int.mul_add, Int.mul_one, Int.add_assoc]

/-! ## The decoder -/

variable {W H left top w h : Nat}

theorem decoder_dst (W H left top w h : Nat) :
    ((convertDecoderOutputToI420 W H (rect left top w h)).map Prod.fst).Perm
      (((range (w * h)).map fun k => (0 : Int) + (k : Nat)) ++
        (((range ((h + 1) / 2)).flatMap fun j =>
            (range ((w + 1) / 2)).map fun i => (w * h : Int) + (w / 2 * j + i : Nat)) ++
          (range ((h + 1) / 2)).flatMap fun j => (range ((w + 1) / 2)).map fun i =>
            (w * h + (w / 2 * h / 2 : Nat) : Int) + (w / 2 * j + i : Nat))) := by
  rw [decoder_eq, List.map_append, ← rows_eq]
  refine .append ?_ ?_
  · rw [map_flatMap]
    simp only [map_map]
    rfl
  · rw [map_flatMap]
    simp only [map_flatMap]
    exact planes_perm _ _ _ _

theorem decoder_dst_even (hw : w % 2 = 0) (hh : h % 2 = 0) :
    ((convertDecoderOutputToI420 W H (rect left top w h)).map Prod.fst).Perm
      ((range (w * h + w / 2 * (h / 2) + w / 2 * (h / 2))).map fun k =>
        (0 : Int) + (k : Nat)) := by
  refine (decoder_dst W H left top w h).trans (.of_eq ?_)
  have hcolumns : (w + 1) / 2 = w / 2 := by omega
  have hrows : (h + 1) / 2 = h / 2 := by omega
  have hsize : w / 2 * h / 2 = w / 2 * (h / 2) := Nat.mul_div_assoc _ (Nat.dvd_of_mod_eq_zero hh)
  rw [hcolumns, hrows, hsize, rows_eq, rows_eq, ← map_range_append, ← map_range_append]
  simp [List.append_assoc]

theorem mem_decoder_luma {x y : Nat} (hx : x < w) (hy : y < h) :
    ((w * y + x : Int), (W * (top + y) + (left + x) : Int)) ∈
      convertDecoderOutputToI420 W H (rect left top w h) := by
  rw [decoder_eq]
  refine List.mem_append_left _ (mem_flatMap.mpr ⟨y, mem_range.mpr hy, ?_⟩)
  refine mem_map.mpr ⟨x, mem_range.mpr hx, ?_⟩
  push_cast
  exact Prod.ext (by ring) (by ring)

theorem first_block (htop : top % 2 = 0) (hleft : left % 2 = 0) :
    (W * top + left + W * (H - top / 2) : Int) =
      W * H + W * (top / 2 : Nat) + 2 * (left / 2 : Nat) := by
  obtain ⟨t, rfl⟩ := Nat.dvd_of_mod_eq_zero htop
  obtain ⟨l, rfl⟩ := Nat.dvd_of_mod_eq_zero hleft
  simp only [Nat.mul_div_cancel_left _ (show 0 < 2 by decide)]
  push_cast
  rw [Int.mul_ediv_cancel_left _ (by decide)]
  ring

theorem mem_chroma {α : Type} {x : α} {luma : List α} {f : Nat → Nat → List α}
    {i j n m : Nat} (hj : j ∈ range n) (hi : i ∈ range m) (hx : x ∈ f j i) :
    x ∈ luma ++ (range n).flatMap fun j => (range m).flatMap (f j) :=
  mem_append_right _ (mem_flatMap.mpr ⟨j, hj, mem_flatMap.mpr ⟨i, hi, hx⟩⟩)

theorem mem_decoder_chroma (htop : top % 2 = 0) (hleft : left % 2 = 0) {i j : Nat}
    (hi : 2 * i < w) (hj : 2 * j < h) :
    ((w * h + ((w / 2 : Nat) * j + i) : Int),
          frameU W H ((left / 2 : Nat) + i) ((top / 2 : Nat) + j)) ∈
        convertDecoderOutputToI420 W H (rect left top w h) ∧
      ((w * h + (w / 2 * h / 2 : Nat) + ((w / 2 : Nat) * j + i) : Int),
          frameU W H ((left / 2 : Nat) + i) ((top / 2 : Nat) + j) + 1) ∈
        convertDecoderOutputToI420 W H (rect left top w h) := by
  have hrow : j ∈ range ((h + 1) / 2) := mem_range.mpr (by omega)
  have hcolumn : i ∈ range ((w + 1) / 2) := mem_range.mpr (by omega)
  rw [decoder_eq, first_block htop hleft]
  refine ⟨mem_chroma hrow hcolumn (mem_cons.mpr (Or.inl ?_)),
    mem_chroma hrow hcolumn (mem_cons.mpr (Or.inr (mem_singleton.mpr ?_)))⟩
  all_goals
    rw [frameU]
    push_cast
    exact Prod.ext (by ring) (by ring)

theorem decoder_inside (hW : W % 2 = 0) (hH : H % 2 = 0) (htop : top % 2 = 0)
    (hleft : left % 2 = 0) (hright : left + w ≤ W) (hbottom : top + h ≤ H) {c : Int × Int}
    (hc : c ∈ convertDecoderOutputToI420 W H (rect left top w h)) :
    0 ≤ c.2 ∧ c.2 < frameSize W H := by
  have hhalf : ((H : Int) / 2) = (H / 2 : Nat) := by omega
  rw [decoder_eq, first_block htop hleft] at hc
  rw [frameSize, hhalf]
  rcases List.mem_append.mp hc with hluma | hchroma
  · obtain ⟨y, hy, hrow⟩ := mem_flatMap.mp hluma
    obtain ⟨x, hx, rfl⟩ := mem_map.mp hrow
    rw [mem_range] at hy hx
    have hplace := place_lt (show top + y < H by omega) (show left + x < W by omega)
    have hsource : (W * top + left + (W * y + x : Nat) : Int) =
        (W * (top + y) + (left + x) : Nat) := by
      push_cast
      ring
    rw [hsource]
    refine ⟨Int.natCast_nonneg _, ?_⟩
    calc ((W * (top + y) + (left + x) : Nat) : Int) < (W * H : Nat) := Int.ofNat_lt.mpr hplace
      _ ≤ (W * H + W * (H / 2) : Nat) := Int.ofNat_le.mpr (Nat.le_add_right _ _)
      _ = W * H + W * (H / 2 : Nat) := by push_cast; rfl
  · obtain ⟨j, hj, hrow⟩ := mem_flatMap.mp hchroma
    obtain ⟨i, hi, hblock⟩ := mem_flatMap.mp hrow
    rw [mem_range] at hj hi
    have hinside : ∀ k < 2, (0 : Int) ≤ W * H + W * (top / 2 : Nat) + 2 * (left / 2 : Nat) +
        (W * j + (2 * i + k) : Nat) ∧ (W * H + W * (top / 2 : Nat) + 2 * (left / 2 : Nat) +
          (W * j + (2 * i + k) : Nat) : Int) < W * H + W * (H / 2 : Nat) := by
      intro k hk
      have hplace := place_lt (show top / 2 + j < H / 2 by omega)
        (show 2 * (left / 2) + (2 * i + k) < W by omega)
      have hsource : (W * H + W * (top / 2 : Nat) + 2 * (left / 2 : Nat) +
          (W * j + (2 * i + k) : Nat) : Int) =
            (W * H + (W * (top / 2 + j) + (2 * (left / 2) + (2 * i + k))) : Nat) := by
        push_cast
        ring
      rw [hsource]
      refine ⟨Int.natCast_nonneg _, ?_⟩
      have hlt := Int.ofNat_lt.mpr (Nat.add_lt_add_left hplace (W * H))
      push_cast at hlt ⊢
      exact hlt
    rcases mem_cons.mp hblock with rfl | hlast
    · exact hinside 0 (by decide)
    · rw [mem_singleton.mp hlast]
      exact hinside 1 (by decide)

theorem even_of_once (hw : 0 < w) (hh : 0 < h)
    (honce : ((convertDecoderOutputToI420 W H (rect left top w h)).map Prod.fst).Nodup) :
    w % 2 = 0 ∧ h % 2 = 0 := by
  have hchroma := (((decoder_dst W H left top w h).nodup_iff.mp honce).of_append_right)
  have hplace : ∀ j < (h + 1) / 2, w / 2 * j ≤ w / 2 * ((h + 1) / 2 - 1) := fun j hj =>
    Nat.mul_le_mul_left _ (by omega)
  have hcount := @length_le_of_nodup _ hchroma (w * h)
    (w / 2 * h / 2 + (w / 2 * ((h + 1) / 2 - 1) + (w + 1) / 2)) ?_
  · have hlength : ∀ base : Int, ((range ((h + 1) / 2)).flatMap fun j =>
        (range ((w + 1) / 2)).map fun i => base + (w / 2 * j + i : Nat)).length =
          (h + 1) / 2 * ((w + 1) / 2) := by
      intro base
      simp [List.length_flatMap]
    rw [List.length_append, hlength, hlength] at hcount
    obtain ⟨r, hr⟩ : ∃ r, (h + 1) / 2 = r + 1 := ⟨(h + 1) / 2 - 1, by omega⟩
    have hfew : w / 2 * h / 2 ≤ w / 2 * (r + 1) :=
      Nat.div_le_of_le_mul (by
        calc w / 2 * h ≤ w / 2 * (2 * (r + 1)) := Nat.mul_le_mul_left _ (by omega)
          _ = 2 * (w / 2 * (r + 1)) := by ring)
    rw [hr, Nat.add_sub_cancel] at hcount
    rcases Nat.mod_two_eq_zero_or_one w with heven | hodd
    · refine ⟨heven, ?_⟩
      by_contra hodd
      have hplaces : w / 2 * h = 2 * (w / 2 * r) + w / 2 := by
        rw [show h = 2 * r + 1 by omega]
        ring
      have hsamples : (r + 1) * ((w + 1) / 2) = w / 2 * r + w / 2 := by
        rw [show (w + 1) / 2 = w / 2 by omega]
        ring
      omega
    · have hsamples : (r + 1) * ((w + 1) / 2) = w / 2 * r + w / 2 + r + 1 := by
        rw [show (w + 1) / 2 = w / 2 + 1 by omega]
        ring
      rw [Nat.mul_succ] at hfew
      omega
  · intro d hd
    rcases List.mem_append.mp hd with hmem | hmem
    · obtain ⟨j, hj, hrow⟩ := mem_flatMap.mp hmem
      obtain ⟨i, hi, rfl⟩ := mem_map.mp hrow
      rw [mem_range] at hj hi
      have hle := hplace j hj
      omega
    · obtain ⟨j, hj, hrow⟩ := mem_flatMap.mp hmem
      obtain ⟨i, hi, rfl⟩ := mem_map.mp hrow
      rw [mem_range] at hj hi
      have hle := hplace j hj
      omega

theorem converts_of_even (hW : W % 2 = 0) (hH : H % 2 = 0) (htop : top % 2 = 0)
    (hleft : left % 2 = 0) (hright : left + w ≤ W) (hbottom : top + h ≤ H) (hw : w % 2 = 0)
    (hh : h % 2 = 0) : Converts W H (rect left top w h) := by
  have hnodup : ((convertDecoderOutputToI420 W H (rect left top w h)).map Prod.fst).Nodup := by
    refine (decoder_dst_even hw hh).nodup_iff.mpr (List.nodup_range.map ?_)
    intro a b hab
    simp only at hab
    omega
  have hwidth : (rect left top w h).width = w := by
    show (left + w - 1 : Int) - left + 1 = w
    omega
  have hheight : (rect left top w h).height = h := by
    show (top + h - 1 : Int) - top + 1 = h
    omega
  constructor
  case once => exact hnodup
  case inside => exact fun c hc => decoder_inside hW hH htop hleft hright hbottom hc
  case luma =>
    intro src dst x y hx hxw hy hyh
    rw [hwidth] at hxw ⊢
    rw [hheight] at hyh
    lift x to Nat using hx
    lift y to Nat using hy
    exact perform_of_mem hnodup
      (mem_decoder_luma (Int.ofNat_lt.mp hxw) (Int.ofNat_lt.mp hyh))
  case chroma =>
    intro src dst i j hi hiw hj hjh
    rw [hwidth, hheight]
    rw [hwidth] at hiw
    rw [hheight] at hjh
    lift i to Nat using hi
    lift j to Nat using hj
    obtain ⟨hu, hv⟩ := @mem_decoder_chroma W H left top w h htop hleft i j (by omega) (by omega)
    have hhalf : ((w + 1) / 2 : Int) = (w / 2 : Nat) := by omega
    have hrows : ((h + 1) / 2 : Int) = (h / 2 : Nat) := by omega
    have hplane : ((w / 2 : Nat) * (h / 2 : Nat) : Int) = (w / 2 * h / 2 : Nat) := by
      rw [Nat.mul_div_assoc _ (Nat.dvd_of_mod_eq_zero hh)]
      push_cast
      rfl
    rw [imageU, imageV, hhalf, hrows, hplane]
    exact ⟨perform_of_mem hnodup hu, perform_of_mem hnodup hv⟩

/-! ## There and back -/

theorem mem_encoder_luma {x y : Nat} (hx : x < w) (hy : y < h) :
    ((W * y + x : Int), (w * y + x : Int)) ∈ convertI420ToEncoderInput w h W H := by
  rw [encoder_eq]
  refine List.mem_append_left _ (mem_flatMap.mpr ⟨y, mem_range.mpr hy, ?_⟩)
  refine mem_map.mpr ⟨x, mem_range.mpr hx, ?_⟩
  push_cast
  exact Prod.ext (by ring) (by ring)

theorem mem_encoder_chroma {i j : Nat} (hi : i < w / 2) (hj : j < h / 2) :
    (frameU W H i j, (w * h + ((w / 2 : Nat) * j + i) : Int)) ∈
        convertI420ToEncoderInput w h W H ∧
      (frameU W H i j + 1, (w * h + (w / 2 * (h / 2) : Nat) + ((w / 2 : Nat) * j + i) : Int)) ∈
        convertI420ToEncoderInput w h W H := by
  have hrow : j ∈ range (h / 2) := mem_range.mpr hj
  have hcolumn : i ∈ range (w / 2) := mem_range.mpr hi
  rw [encoder_eq, frameU]
  refine ⟨mem_chroma hrow hcolumn (mem_cons.mpr (Or.inl ?_)),
    mem_chroma hrow hcolumn (mem_cons.mpr (Or.inr (mem_singleton.mpr ?_)))⟩
  all_goals
    push_cast
    exact Prod.ext (by ring) (by ring)

theorem encoder_nodup (hw : w ≤ W) (hh : h ≤ H) :
    ((convertI420ToEncoderInput w h W H).map Prod.fst).Nodup := by
  have hluma : ((range h).flatMap fun y => (range w).map fun x =>
      (0 : Int) + (W * y + x : Nat)).Nodup := nodup_rows hw 0 h
  have hchroma : ((range (h / 2)).flatMap fun i => (range (2 * (w / 2))).map fun k =>
      (W * H : Int) + (W * i + k : Nat)).Nodup := nodup_rows (by omega) (W * H) (h / 2)
  have hrows : ∀ i : Nat, ((range (w / 2)).flatMap fun j =>
      [(W * H : Int) + (W * i + 2 * j : Nat), (W * H : Int) + (W * i + (2 * j + 1) : Nat)]) =
        (range (2 * (w / 2))).map fun k => (W * H : Int) + (W * i + k : Nat) := by
    intro i
    have hpairs := pairs_eq (W * H + W * i) (w / 2)
    simpa only [Nat.cast_add, Nat.cast_mul, Int.add_assoc] using hpairs
  have hdst : (convertI420ToEncoderInput w h W H).map Prod.fst =
      ((range h).flatMap fun y => (range w).map fun x =>
        (0 : Int) + (W * y + x : Nat)) ++
      (range (h / 2)).flatMap fun i => (range (2 * (w / 2))).map fun k =>
        (W * H : Int) + (W * i + k : Nat) := by
    rw [encoder_eq, List.map_append, map_flatMap, map_flatMap]
    simp only [map_flatMap, map_map, ← hrows]
    rfl
  rw [hdst]
  refine hluma.append hchroma ?_
  intro d hd hd'
  obtain ⟨y, hy, hrow⟩ := mem_flatMap.mp hd
  obtain ⟨x, hx, rfl⟩ := mem_map.mp hrow
  obtain ⟨i, -, hrow'⟩ := mem_flatMap.mp hd'
  obtain ⟨k, -, heq⟩ := mem_map.mp hrow'
  rw [mem_range] at hy hx
  have hplace := place_lt (show y < H by omega) (show x < W by omega)
  have hlt := Int.ofNat_lt.mpr hplace
  have hpos := Int.natCast_nonneg (W * i + k)
  push_cast at hlt heq hpos
  omega

theorem round_trip (hw : w % 2 = 0) (hh : h % 2 = 0) (hW : w ≤ W) (hH : h ≤ H)
    (image enc out : Int → UInt8) {d : Nat} (hd : d < w * h + 2 * (w / 2 * (h / 2))) :
    perform (perform image enc (convertI420ToEncoderInput w h W H)) out
      (convertDecoderOutputToI420 W H (rect 0 0 w h)) d = image d := by
  have honce : ((convertDecoderOutputToI420 W H (rect 0 0 w h)).map Prod.fst).Nodup := by
    refine (decoder_dst_even hw hh).nodup_iff.mpr (List.nodup_range.map ?_)
    intro a b hab
    simp only at hab
    omega
  have hencoded := encoder_nodup hW hH
  -- a byte of the image, the byte of the frame that it goes to, and back
  have hback : ∀ {s : Int} {d : Nat},
      ((d : Int), s) ∈ convertDecoderOutputToI420 W H (rect 0 0 w h) →
      (s, (d : Int)) ∈ convertI420ToEncoderInput w h W H →
        perform (perform image enc (convertI420ToEncoderInput w h W H)) out
          (convertDecoderOutputToI420 W H (rect 0 0 w h)) d = image d := by
    intro s d hdecoded hencode
    rw [perform_of_mem honce hdecoded, perform_of_mem hencoded hencode]
  have hplane : w / 2 * h / 2 = w / 2 * (h / 2) :=
    Nat.mul_div_assoc _ (Nat.dvd_of_mod_eq_zero hh)
  rcases Nat.lt_or_ge d (w * h) with hluma | hchroma
  · obtain ⟨y, hy, x, hx, rfl⟩ := exists_place hluma
    have hdecoded := @mem_decoder_luma W H 0 0 w h x y hx hy
    have hencode := @mem_encoder_luma W H w h x y hx hy
    refine hback (s := W * y + x) ?_ (by simpa using hencode)
    simpa using hdecoded
  · obtain ⟨k, rfl⟩ := Nat.exists_eq_add_of_le hchroma
    rcases Nat.lt_or_ge k (w / 2 * (h / 2)) with hu | hv
    · obtain ⟨j, hj, i, hi, rfl⟩ := exists_place hu
      have hdecoded := (@mem_decoder_chroma W H 0 0 w h rfl rfl i j (by omega) (by omega)).1
      have hencode := (@mem_encoder_chroma W H w h i j hi hj).1
      refine hback (s := frameU W H i j) ?_ ?_
      · simpa using hdecoded
      · simpa using hencode
    · obtain ⟨k, rfl⟩ := Nat.exists_eq_add_of_le hv
      obtain ⟨j, hj, i, hi, rfl⟩ := exists_place (show k < w / 2 * (h / 2) by omega)
      have hdecoded := (@mem_decoder_chroma W H 0 0 w h rfl rfl i j (by omega) (by omega)).2
      have hencode := (@mem_encoder_chroma W H w h i j hi hj).2
      rw [hplane] at hdecoded
      refine hback (s := frameU W H i j + 1) ?_ ?_
      · simpa [Int.add_assoc] using hdecoded
      · simpa [Int.add_assoc] using hencode

/-! ## Conversion -/

/-- Every I420 image of even sizes comes back from every frame that is at least as large. -/
def RoundTrip : Prop :=
  ∀ w h W H : Int, 0 ≤ w → 0 ≤ h → w % 2 = 0 → h % 2 = 0 → w ≤ W → h ≤ H →
    ∀ (image enc out : Int → UInt8) (d : Int), 0 ≤ d → d < imageSize w h →
      perform (perform image enc (convertI420ToEncoderInput w h W H)) out
        (convertDecoderOutputToI420 W H ⟨0, 0, w - 1, h - 1⟩) d = image d

theorem roundTrip : RoundTrip := by
  intro w h W H hw hh hweven hheven hW hH image enc out d hd hsize
  lift w to Nat using hw
  lift h to Nat using hh
  lift W to Nat using by omega
  lift H to Nat using by omega
  lift d to Nat using hd
  have hrect : (⟨0, 0, w - 1, h - 1⟩ : ARect) = rect 0 0 w h := by simp [rect]
  rw [hrect]
  refine round_trip (by omega) (by omega) (by omega) (by omega) image enc out ?_
  rw [imageSize] at hsize
  have hcast : ((w : Int) * h + 2 * (w / 2 * (h / 2))) =
      (w * h + 2 * (w / 2 * (h / 2)) : Nat) := by
    push_cast
    rfl
  rw [hcast] at hsize
  exact Int.ofNat_lt.mp hsize

theorem ARect.Inside.exists_rect {r : ARect} {width height : Int} (hr : r.Inside width height) :
    ∃ left top w h : Nat, r = rect left top w h ∧ 0 < w ∧ 0 < h ∧
      (left + w : Int) ≤ width ∧ (top + h : Int) ≤ height ∧ r.width = w ∧ r.height = h := by
  obtain ⟨left, top, right, bottom⟩ := r
  obtain ⟨hleft, hcolumns, hright, htop, hrows, hbottom⟩ := hr
  dsimp only at hleft hcolumns hright htop hrows hbottom
  lift left to Nat using hleft
  lift top to Nat using htop
  obtain ⟨w, hw⟩ := Int.eq_ofNat_of_zero_le (show 0 ≤ right - left + 1 by omega)
  obtain ⟨h, hh⟩ := Int.eq_ofNat_of_zero_le (show 0 ≤ bottom - top + 1 by omega)
  obtain rfl : right = left + w - 1 := by omega
  obtain rfl : bottom = top + h - 1 := by omega
  exact ⟨left, top, w, h, rfl, by omega, by omega, by omega, by omega, hw, hh⟩

/-- The conversions are the ones of the two layouts for a rectangle of a frame exactly if its width
and its height are even. -/
theorem i420_converts_iff (width height : Int) (r : ARect) (hwidth : width % 2 = 0)
    (hheight : height % 2 = 0) (hr : r.Inside width height) (hleft : r.left % 2 = 0)
    (htop : r.top % 2 = 0) :
    (RoundTrip ∧ Converts width height r) ↔ r.width % 2 = 0 ∧ r.height % 2 = 0 := by
  obtain ⟨left, top, w, h, rfl, hw, hh, hright, hbottom, hrw, hrh⟩ := hr.exists_rect
  rw [hrw, hrh]
  replace hleft : (left : Int) % 2 = 0 := hleft
  replace htop : (top : Int) % 2 = 0 := htop
  lift width to Nat using by omega
  lift height to Nat using by omega
  constructor
  · intro hconverts
    obtain ⟨hweven, hheven⟩ := even_of_once hw hh hconverts.2.once
    exact ⟨by omega, by omega⟩
  · rintro ⟨hweven, hheven⟩
    exact ⟨roundTrip, converts_of_even (by omega) (by omega) (by omega) (by omega) (by omega)
      (by omega) (by omega) (by omega)⟩

/-- A frame of four columns and rows. -/
theorem converts_four : (RoundTrip ∧ Converts 4 4 ⟨0, 0, 3, 3⟩) ↔
    (⟨0, 0, 3, 3⟩ : ARect).width % 2 = 0 ∧ (⟨0, 0, 3, 3⟩ : ARect).height % 2 = 0 :=
  i420_converts_iff 4 4 ⟨0, 0, 3, 3⟩ rfl rfl ⟨by decide, by decide, by decide, by decide, by decide,
    by decide⟩ rfl rfl

/-- In three columns of it the last U sample of a row is overwritten by the first of the next. -/
theorem odd_width_overwrites : ¬ ∀ (width height : Int) (r : ARect), width % 2 = 0 →
    height % 2 = 0 → r.Inside width height → r.left % 2 = 0 → r.top % 2 = 0 →
      RoundTrip ∧ Converts width height r := by
  intro hall
  have hinside : (⟨0, 0, 2, 3⟩ : ARect).Inside 4 4 :=
    ⟨by decide, by decide, by decide, by decide, by decide, by decide⟩
  have honce := (hall 4 4 ⟨0, 0, 2, 3⟩ rfl rfl hinside rfl rfl).2.once
  exact absurd honce (by decide)

end Omap4Hal.Camera.I420Conversion

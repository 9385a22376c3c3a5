import Mathlib.Algebra.Order.Ring.Nat
import Mathlib.Data.List.Range
import Omap4Hal.Camera.JpegEncoder

/- The lines that the encoder makes of a picture in NV21. The chroma pointer of a line goes on when
   the number of columns left is even, and that of the picture when the number of the next line
   is. Lines are counted from the top and agree with the rows of the chroma plane; columns are
   counted from the right, and agree with its columns if their number is even
   (`encode_feeds_iff`). -/
namespace Omap4Hal.Camera.JpegEncoder

/-! ## The picture -/

/-- The bytes of a picture in NV21: the rows of the chroma plane are as wide as those of the luma
plane, and each belongs to two lines. -/
def imageSize (W H : Nat) : Nat := W * H + W * ((H + 1) / 2)

/-- The offset of the sample of V that belongs to a pixel; the one of U follows. -/
def chromaAt (W H r c : Nat) : Int := (W * H + W * (r / 2) + 2 * (c / 2) : Nat)

/-- The triple that a pixel of the picture has. -/
def Shows (W H : Nat) (src : Bytes) (r c : Nat) (px : Pixel) : Prop :=
  c < W ∧ px.y = src (W * r + c : Nat) ∧ px.u = src (chromaAt W H r c + 1) ∧
    px.v = src (chromaAt W H r c)

/-- The lines show the columns below `w` of the picture, and nothing else is read. -/
structure Feeds (W H : Nat) (w : Int) (src : Bytes) (lines : List (List Pixel)) : Prop where
  shows : ∀ r l, lines[r]? = some l → ∀ c : Nat, (c : Int) < w →
    ∃ px, l[c]? = some px ∧ Shows W H src r c px
  reads : ∀ l ∈ lines, ∀ px ∈ l, ∀ offset ∈ px.reads, 0 ≤ offset ∧ offset < imageSize W H

/-! ## A line -/

/-- Where the chroma pointer of a line is at a column. -/
def uvStep (width c : Nat) : Nat := 2 * ((c + width % 2) / 2)

theorem nv21ToYuv_getElem (src : Bytes) {width c : Nat} (hc : c < width) (y uv : Int) :
    (nv21ToYuv src width y uv)[c]? = some
      { y := src (y + c), u := src (uv + uvStep width c + 1), v := src (uv + uvStep width c)
        reads := [y + c, uv + uvStep width c, uv + uvStep width c + 1] } := by
  induction width generalizing c y uv with
  | zero => omega
  | succ width ih =>
    rw [nv21ToYuv]
    cases c with
    | zero =>
      have hstep : uvStep (width + 1) 0 = 0 := by
        rw [uvStep]
        omega
      simp [hstep]
    | succ c =>
      have hstep : (if width % 2 = 0 then uv + 2 else uv) + uvStep width c =
          uv + uvStep (width + 1) (c + 1) := by
        rw [uvStep, uvStep]
        split <;> omega
      have hy : y + 1 + c = y + (c + 1 : Nat) := by omega
      rw [List.getElem?_cons_succ, ih (by omega), hstep, hy]

theorem nv21ToYuv_length (src : Bytes) (width : Nat) (y uv : Int) :
    (nv21ToYuv src width y uv).length = width := by
  induction width generalizing y uv with
  | zero => rfl
  | succ width ih => rw [nv21ToYuv, List.length_cons, ih]

/-! ## All lines -/

/-- A line of the picture. -/
def lineAt (W H : Nat) (w : Nat) (src : Bytes) (r : Nat) : List Pixel :=
  nv21ToYuv src w (W * r : Nat) (W * H + W * (r / 2) : Nat)

/-- The state when line `k` is next. -/
structure At (W H w : Nat) (src : Bytes) (k : Nat) (s : Rows) : Prop where
  next : s.nextScanline = k
  rowSrc : s.rowSrc = (W * k : Nat)
  rowUv : s.rowUv = (W * H + W * (k / 2) : Nat)
  lines : s.lines = (List.range k).map (lineAt W H w src)

/-- A picture in NV21 that is not resized: the offsets are those of its sizes, and all of it is in
the source. -/
structure Plain (p : Params) (W H : Nat) : Prop where
  checked : p.Checked
  format : p.format = some .yuv420sp
  same : ¬ p.Resizes
  offset : p.startOffset = 0
  width : p.outWidth.toInt = W
  height : p.outHeight.toInt = H
  size : imageSize W H ≤ p.srcSize.toInt

section Lines

variable {p : Params} {W H : Nat} {src : Bytes} {k : Nat} {s : Rows}

theorem Plain.bpp (h : Plain p W H) : p.bpp = 1 := by
  rw [Params.bpp, if_pos h.format]

theorem Plain.width_ge (h : Plain p W H) : 2 ≤ W := by
  have hge := Int32.le_iff_toInt_le.mp h.checked.2.1
  have hwidth := h.width
  have htwo : (2 : Int32).toInt = 2 := rfl
  omega

theorem Plain.height_ge (h : Plain p W H) : 2 ≤ H := by
  have hge := Int32.le_iff_toInt_le.mp h.checked.2.2.2.1
  have hheight := h.height
  have htwo : (2 : Int32).toInt = 2 := rfl
  omega

theorem Plain.stride (h : Plain p W H) : (p.outWidth * p.bpp).toInt = W := by
  rw [h.bpp, Int32.mul_one, h.width]

theorem Plain.planeSize (h : Plain p W H) :
    (p.outWidth * p.outHeight * p.bpp).toInt = (W * H : Nat) := by
  have hsize := h.size
  have hlt := p.srcSize.toInt_lt
  rw [imageSize] at hsize
  rw [h.bpp, Int32.mul_one, Int32.toInt_mul, h.width, h.height, ← Int.natCast_mul,
    Int.bmod_eq_of_le (by omega) (by omega)]

theorem Plain.first (h : Plain p W H) (w : Nat) : At W H w src 0 p.firstRow := by
  refine ⟨rfl, ?_, ?_, rfl⟩
  · rw [Params.firstRow, h.offset]
    rfl
  · rw [Params.firstRow, h.planeSize]
    rfl

theorem Plain.row (h : Plain p W H) (hs : At W H p.columns.toNatClampNeg src k s) :
    At W H p.columns.toNatClampNeg src (k + 1) (encodeRow p src s) := by
  obtain ⟨hnext, hsrc, huv, hlines⟩ := hs
  refine ⟨?_, ?_, ?_, ?_⟩
  · simp only [encodeRow, hnext]
  · simp only [encodeRow, hsrc, h.stride]
    rw [Nat.mul_succ, Int.natCast_add]
  · simp only [encodeRow, hnext, huv, h.stride, h.format, true_and]
    split
    next heven =>
      rw [show (k + 1) / 2 = k / 2 + 1 by omega, Nat.mul_succ]
      omega
    next hodd => rw [show (k + 1) / 2 = k / 2 by omega]
  · simp only [encodeRow, convertRow, h.format, hsrc, huv, hlines, List.range_succ, List.map_append,
      List.map_singleton, lineAt, if_true]

theorem Plain.rows (h : Plain p W H) (cancel : Nat → Bool) {n : Nat}
    (hs : At W H p.columns.toNatClampNeg src k s) :
    ∃ m ≤ n, At W H p.columns.toNatClampNeg src (k + m) (encodeRows p src cancel n s) ∧
      ((∀ r, cancel r = false) → m = n) := by
  induction n generalizing k s with
  | zero => exact ⟨0, Nat.le_refl 0, hs, fun _ => rfl⟩
  | succ n ih =>
    rw [encodeRows]
    split
    next hcancel =>
      refine ⟨0, Nat.zero_le _, hs, fun hno => ?_⟩
      rw [hno] at hcancel
      cases hcancel
    next =>
      obtain ⟨m, hm, hat, hall⟩ := ih (h.row hs)
      refine ⟨m + 1, Nat.succ_le_succ hm, ?_, fun hno => congrArg Nat.succ (hall hno)⟩
      rwa [Nat.add_assoc, Nat.add_comm 1 m] at hat

theorem Plain.withSource (h : Plain p W H) (src : Bytes) :
    Plain { p with src := some src } W H := by
  obtain ⟨hc₁, hc₂, hc₃, hc₄, -, hc₆⟩ := h.checked
  exact ⟨⟨hc₁, hc₂, hc₃, hc₄, nofun, hc₆⟩, h.format, h.same, h.offset, h.width, h.height, h.size⟩

theorem Plain.encode_lines (h : Plain p W H) (src : Bytes) (lib : Libjpeg) (env : Env) :
    ∃ e job m, encode lib { p with src := some src } env = some e ∧ e.job = some job ∧ m ≤ H ∧
      job.lines = (List.range m).map (lineAt W H p.columns.toNatClampNeg src) ∧
      ((∀ r, env.cancel r = false) → m = H) := by
  have h' := h.withSource src
  have hheight : p.outHeight.toNatClampNeg = H := by
    have hH := h.height
    rw [Int32.toNatClampNeg, hH]
    rfl
  have hfirst : At W H p.columns.toNatClampNeg src 0 { p with src := some src }.firstRow :=
    h'.first _
  obtain ⟨m, hm, hat, hall⟩ := h'.rows env.cancel (n := H) hfirst
  rw [Nat.zero_add] at hat
  refine ⟨encodeFrom lib { p with src := some src } env src, _, m, ?_, rfl, hm, ?_, hall⟩
  · rw [encode_eq h'.checked (Or.inl h'.format), JpegEncoder.source, if_neg h'.same]
    rfl
  · rw [hheight]
    exact hat.lines

theorem Plain.all_lines (h : Plain p W H) (src : Bytes) {Q : List (List Pixel) → Prop}
    (hall : ∀ lib env, ∃ e job, encode lib { p with src := some src } env = some e ∧
      e.job = some job ∧ Q job.lines) :
    Q ((List.range H).map (lineAt W H p.columns.toNatClampNeg src)) := by
  obtain ⟨e, job, he, hjob, hQ⟩ := hall ⟨fun _ => [], fun _ => []⟩ {}
  obtain ⟨e', job', m, he', hjob', -, hlines, hm⟩ :=
    h.encode_lines src ⟨fun _ => [], fun _ => []⟩ {}
  cases he.symm.trans he'
  cases hjob.symm.trans hjob'
  obtain rfl : m = H := hm fun _ => rfl
  exact hlines ▸ hQ

end Lines

/-! ## Columns -/

/-- The condition: there are no columns, or a part of the picture with an even number of them, or
with one. -/
def RightColumns (W : Nat) (rightCrop : Int) : Prop :=
  W - rightCrop ≤ 0 ∨ 0 ≤ rightCrop ∧ ((W - rightCrop) % 2 = 0 ∨ W - rightCrop = 1)

section Columns

variable {p : Params} {W H : Nat} {src : Bytes}

theorem Plain.columns_eq (h : Plain p W H) (hcrop : 0 ≤ p.rightCrop.toInt) :
    p.columns.toNatClampNeg = (W - p.rightCrop.toInt).toNat := by
  have hlt := p.rightCrop.toInt_lt
  have hW := p.outWidth.toInt_lt
  have hwidth := h.width
  rw [Int32.toNatClampNeg, Params.columns, Int32.toInt_sub, hwidth,
    Int.bmod_eq_of_le (by omega) (by omega)]

variable {w c : Nat}

/-- An even number of columns, or one, has the chroma pointer at the pair of the column. -/
theorem uvStep_eq (hc : c < w) (hw : w % 2 = 0 ∨ w = 1) : uvStep w c = 2 * (c / 2) := by
  rw [uvStep]
  omega

theorem lineAt_shows (H : Nat) (src : Bytes) (r : Nat) (hw : w % 2 = 0 ∨ w = 1) (hle : w ≤ W)
    (hc : c < w) :
    ∃ px, (lineAt W H w src r)[c]? = some px ∧ Shows W H src r c px ∧
      px.reads = [((W * r + c : Nat) : Int), chromaAt W H r c, chromaAt W H r c + 1] := by
  have huv : ((W * H + W * (r / 2) : Nat) : Int) + uvStep w c = chromaAt W H r c := by
    rw [uvStep_eq hc hw, chromaAt]
    exact (Int.natCast_add _ _).symm
  have hline := nv21ToYuv_getElem src hc (W * r : Nat) (W * H + W * (r / 2) : Nat)
  rw [huv, ← Int.natCast_add] at hline
  exact ⟨_, hline, ⟨by omega, rfl, rfl, rfl⟩, rfl⟩

theorem read_inside {r : Nat} (hr : r < H) (hc : c < W) (hc' : 2 * (c / 2) + 1 < W) {offset : Int}
    (ho : offset ∈ [((W * r + c : Nat) : Int), chromaAt W H r c, chromaAt W H r c + 1]) :
    0 ≤ offset ∧ offset < imageSize W H := by
  have hluma : W * r + W ≤ W * H := Nat.mul_succ W r ▸ Nat.mul_le_mul_left W hr
  have hchroma : W * (r / 2) + W ≤ W * ((H + 1) / 2) := by
    rw [← Nat.mul_succ]
    exact Nat.mul_le_mul_left W (by omega)
  rw [imageSize]
  simp only [List.mem_cons, List.not_mem_nil, or_false, chromaAt] at ho
  omega

theorem lines_feed {m : Nat} (hw : w % 2 = 0 ∨ w = 1) (hle : w ≤ W) (hW : 2 ≤ W) (hm : m ≤ H) :
    Feeds W H w src ((List.range m).map (lineAt W H w src)) := by
  constructor
  · intro r line hline c hc
    rw [List.getElem?_map, Option.map_eq_some_iff] at hline
    obtain ⟨r', hr', rfl⟩ := hline
    obtain ⟨hr, hr'⟩ := List.getElem?_eq_some_iff.mp hr'
    rw [List.getElem_range] at hr'
    subst hr'
    obtain ⟨px, hpx, hshows, -⟩ := lineAt_shows H src r hw hle (show c < w by omega)
    exact ⟨px, hpx, hshows⟩
  · intro line hline px hpx offset ho
    obtain ⟨r, hr, rfl⟩ := List.mem_map.mp hline
    rw [List.mem_range] at hr
    obtain ⟨c, hc⟩ := List.mem_iff_getElem?.mp hpx
    have hlt : c < w := by
      have hlen := (List.getElem?_eq_some_iff.mp hc).1
      rwa [lineAt, nv21ToYuv_length] at hlen
    obtain ⟨px', hpx', -, hreads⟩ := lineAt_shows H src r hw hle hlt
    cases hc.symm.trans hpx'
    rw [hreads] at ho
    exact read_inside (by omega) (by omega) (by omega) ho

/-- A picture in which only the first sample of V is not zero. -/
def firstV (W H : Nat) : Bytes := fun offset => if offset = (W * H : Nat) then 1 else 0

theorem odd_not_feeds {m : Nat} (hodd : w % 2 = 1) (hw : 3 ≤ w) (hm : 0 < m) :
    ¬ Feeds W H w (firstV W H) ((List.range m).map (lineAt W H w (firstV W H))) := by
  intro hfeeds
  have hfirst : ((List.range m).map (lineAt W H w (firstV W H)))[0]? =
      some (lineAt W H w (firstV W H) 0) := by
    rw [List.getElem?_map, List.getElem?_range hm]
    rfl
  obtain ⟨px, hpx, -, -, -, hv⟩ := hfeeds.shows 0 _ hfirst 1 (by omega)
  rw [lineAt, nv21ToYuv_getElem _ (by omega)] at hpx
  cases hpx
  have hstep : uvStep w 1 = 2 := by
    rw [uvStep]
    omega
  simp [firstV, chromaAt, hstep] at hv

end Columns

theorem Feeds.mono {W H : Nat} {w w' : Int} {src : Bytes} {lines : List (List Pixel)}
    (h : Feeds W H w src lines) (hw : w' ≤ w) : Feeds W H w' src lines :=
  ⟨fun r line hline c hc => h.shows r line hline c (lt_of_lt_of_le hc hw), h.reads⟩

theorem rightColumns_even {W : Nat} {rightCrop : Int} (h : RightColumns W rightCrop) :
    0 ≤ rightCrop ∧ ((W - rightCrop).toNat % 2 = 0 ∨ (W - rightCrop).toNat = 1) := by
  rcases h with hnone | ⟨hcrop, heven⟩
  · omega
  · omega

/-- The lines show every picture of the sizes only with the right columns. -/
theorem encode_feeds_iff {p : Params} {W H : Nat} (h : Plain p W H) :
    (∀ src lib env, ∃ e job, encode lib { p with src := some src } env = some e ∧
      e.job = some job ∧ ((∀ r, env.cancel r = false) → job.lines.length = H) ∧
      Feeds W H (W - p.rightCrop.toInt) src job.lines) ↔ RightColumns W p.rightCrop.toInt := by
  have hW := h.width_ge
  have hH := h.height_ge
  constructor
  · intro hall
    by_contra hbad
    rw [RightColumns] at hbad
    have hlines := h.all_lines (firstV W H)
      (Q := fun lines => Feeds W H (W - p.rightCrop.toInt) (firstV W H) lines) fun lib env => by
        obtain ⟨e, job, he, hjob, -, hfeeds⟩ := hall (firstV W H) lib env
        exact ⟨e, job, he, hjob, hfeeds⟩
    by_cases hcrop : p.rightCrop.toInt < 0
    · -- the first column beyond the picture
      have hfirst := List.getElem?_map (f := lineAt W H p.columns.toNatClampNeg (firstV W H))
        (l := List.range H) (i := 0)
      rw [List.getElem?_range (by omega)] at hfirst
      obtain ⟨px, -, hlt, -⟩ := hlines.shows 0 _ hfirst W (by omega)
      exact Nat.lt_irrefl W hlt
    · rw [h.columns_eq (Int.not_lt.mp hcrop)] at hlines
      refine odd_not_feeds ?_ ?_ (by omega) (hlines.mono (Int.toNat_of_nonneg ?_).le)
      · omega
      · omega
      · omega
  · intro hright src lib env
    obtain ⟨hcrop, hcolumns⟩ := rightColumns_even hright
    obtain ⟨e, job, m, he, hjob, hm, hlines, hall⟩ := h.encode_lines src lib env
    refine ⟨e, job, he, hjob, ?_, ?_⟩
    · intro hno
      rw [hlines, List.length_map, List.length_range, hall hno]
    · rw [hlines, h.columns_eq hcrop]
      exact (lines_feed hcolumns (by omega) hW hm).mono (Int.self_le_toNat _)

/-- A picture of 4 by 2 pixels of which the last column is left out. -/
def cropped : Params :=
  { src := some fun _ => 0, srcSize := 12, dst := some fun _ => 0, dstSize := 64, quality := 90
    inWidth := 4, inHeight := 2, outWidth := 4, outHeight := 2, rightCrop := 1
    format := some .yuv420sp }

theorem cropped_plain : Plain cropped 4 2 :=
  ⟨by decide, rfl, by decide, rfl, rfl, rfl, by decide⟩

theorem encode_feeds_iff_cropped :
    (∀ src lib env, ∃ e job, encode lib { cropped with src := some src } env = some e ∧
      e.job = some job ∧ ((∀ r, env.cancel r = false) → job.lines.length = 2) ∧
      Feeds 4 2 (4 - (1 : Int32).toInt) src job.lines) ↔ RightColumns 4 (1 : Int32).toInt :=
  encode_feeds_iff cropped_plain

/-- Three columns: the second has the sample of V of the third. -/
theorem cropped_not_fed :
    ¬ ∀ src lib env, ∃ e job, encode lib { cropped with src := some src } env = some e ∧
      e.job = some job ∧ Feeds 4 2 3 src job.lines := by
  intro hall
  have hlines := cropped_plain.all_lines (firstV 4 2)
    (Q := fun lines => Feeds 4 2 3 (firstV 4 2) lines) (hall (firstV 4 2))
  exact odd_not_feeds (by decide) (by decide) (by decide) hlines

end Omap4Hal.Camera.JpegEncoder

import Mathlib.Data.Nat.Basic
import Omap4Hal.Camera.JpegEncoder

/- What the destination manager makes of the bytes that libjpeg stores. `empty_output_buffer`
   starts again at the beginning of the buffer and keeps no count, so the buffer holds the bytes
   since it was last full, and only these are counted (`Holds`). The picture is lost without a
   report if there are more bytes than the buffer has, and they do not fill it a whole number of
   times (`encode_lossless_iff`). -/
namespace Omap4Hal.Camera.JpegEncoder

open Function (update)
open List (length_append length_singleton range)

/-! ## The buffer -/

/-- The bytes stored so far are those that were written over and those that the buffer holds. -/
structure Holds (B : Nat) (flushed held : List UInt8) (d : DestMgr) : Prop where
  bufsize : d.bufsize = B
  full : B ∣ flushed.length
  lt : held.length < B
  next : d.nextOutputByte = held.length
  free : d.freeInBuffer + held.length = B
  buf : (range held.length).map d.buf = held

section Buffer

variable {B : Nat} {flushed held : List UInt8} {d : DestMgr}

theorem holds_init (d : DestMgr) (hB : 0 < d.bufsize) : Holds d.bufsize [] [] d.initDestination :=
  ⟨rfl, Nat.dvd_zero _, hB, rfl, rfl, rfl⟩

theorem map_update (buf : Nat → UInt8) (n : Nat) (byte : UInt8) :
    (range (n + 1)).map (update buf n byte) = (range n).map buf ++ [byte] := by
  rw [List.range_succ, List.map_append, List.map_singleton, Function.update_self]
  congr 1
  apply List.map_congr_left
  intro k hk
  rw [List.mem_range] at hk
  exact Function.update_of_ne (Nat.ne_of_lt hk) _ _

theorem Holds.emit (h : Holds B flushed held d) (byte : UInt8) :
    ∃ flushed' held', flushed' ++ held' = flushed ++ held ++ [byte] ∧
      Holds B flushed' held' (d.emit byte) := by
  obtain ⟨hsize, hfull, hlt, hnext, hfree, hbuf⟩ := h
  by_cases hlast : d.freeInBuffer - 1 = 0
  · have hd : d.emit byte =
        { d with buf := update d.buf d.nextOutputByte byte, nextOutputByte := 0,
                 freeInBuffer := d.bufsize } := by
      simp only [DestMgr.emit, hlast, DestMgr.emptyOutputBuffer, if_true]
    refine ⟨flushed ++ held ++ [byte], [], List.append_nil _, ?_⟩
    rw [hd]
    refine ⟨hsize, ?_, by rw [List.length_nil]; omega, rfl, hsize, rfl⟩
    rw [length_append, length_append, length_singleton, Nat.add_assoc,
      show held.length + 1 = B by omega]
    exact Nat.dvd_add_self_right.mpr hfull
  · have hd : d.emit byte =
        { d with buf := update d.buf d.nextOutputByte byte, nextOutputByte := d.nextOutputByte + 1,
                 freeInBuffer := d.freeInBuffer - 1 } := by
      simp only [DestMgr.emit, hlast, if_false]
    refine ⟨flushed, held ++ [byte], (List.append_assoc ..).symm, ?_⟩
    rw [hd]
    refine ⟨hsize, hfull, ?_, ?_, ?_, ?_⟩
    · rw [length_append, length_singleton]
      omega
    · rw [length_append, length_singleton, hnext]
    · change d.freeInBuffer - 1 + (held ++ [byte]).length = B
      rw [length_append, length_singleton]
      omega
    · rw [length_append, length_singleton, hnext, map_update, hbuf]

theorem Holds.emits (h : Holds B flushed held d) (bytes : List UInt8) :
    ∃ flushed' held', flushed' ++ held' = flushed ++ held ++ bytes ∧
      Holds B flushed' held' (bytes.foldl DestMgr.emit d) := by
  induction bytes generalizing flushed held d with
  | nil => exact ⟨flushed, held, (List.append_nil _).symm, h⟩
  | cons byte bytes ih =>
    obtain ⟨flushed₁, held₁, happ₁, h₁⟩ := h.emit byte
    obtain ⟨flushed₂, held₂, happ₂, h₂⟩ := ih h₁
    refine ⟨flushed₂, held₂, ?_, h₂⟩
    rw [happ₂, happ₁, List.append_assoc, List.singleton_append]

theorem Holds.term (h : Holds B flushed held d) :
    d.termDestination.jpegsize = held.length ∧
      (range held.length).map d.termDestination.buf = held := by
  refine ⟨?_, h.buf⟩
  have hfree := h.free
  rw [DestMgr.termDestination, h.bufsize]
  exact Nat.sub_eq_of_eq_add (by omega)

/-- The condition: all bytes fit with room for one more, or the last one fills the buffer. -/
def Ends (B n : Nat) : Prop := n < B ∨ B ∣ n

theorem Holds.ends_iff (h : Holds B flushed held d) :
    flushed = [] ∨ held = [] ↔ Ends B (flushed ++ held).length := by
  have hlt := h.lt
  rw [Ends, length_append]
  constructor
  · rintro (rfl | rfl)
    · exact Or.inl (by rwa [List.length_nil, Nat.zero_add])
    · exact Or.inr h.full
  · rintro (hroom | hdvd)
    · have hflushed : flushed.length = 0 :=
        Nat.eq_zero_of_dvd_of_lt h.full (by omega)
      exact Or.inl (List.length_eq_zero_iff.mp hflushed)
    · have hheld : held.length = 0 :=
        Nat.eq_zero_of_dvd_of_lt ((Nat.dvd_add_right h.full).mp hdvd) hlt
      exact Or.inr (List.length_eq_zero_iff.mp hheld)

end Buffer

/-! ## An encoding -/

/-- The first `jpeg_size` bytes of the destination are the bytes libjpeg stored. -/
def Delivers (e : Encoded) (bytes : List UInt8) : Prop :=
  (range e.jpegSize).map e.dest.buf = bytes

theorem encodeRows_cancelled {p : Params} {src : Bytes} {cancel : Nat → Bool} {n : Nat} {s : Rows} :
    cancel (encodeRows p src cancel n s).nextScanline = true ↔
      ∃ r, s.nextScanline ≤ r ∧ r ≤ s.nextScanline + n ∧ cancel r = true := by
  induction n generalizing s with
  | zero =>
    rw [encodeRows]
    constructor
    · intro hcancel
      exact ⟨_, Nat.le_refl _, Nat.le_refl _, hcancel⟩
    · rintro ⟨r, hle, hge, hcancel⟩
      rwa [Nat.le_antisymm hle hge]
  | succ n ih =>
    rw [encodeRows]
    split
    next hcancel =>
      exact ⟨fun _ => ⟨_, Nat.le_refl _, Nat.le_add_right _ _, hcancel⟩, fun _ => hcancel⟩
    next hgo =>
      rw [ih, show (encodeRow p src s).nextScanline = s.nextScanline + 1 from rfl]
      constructor
      · rintro ⟨r, hle, hge, hcancel⟩
        exact ⟨r, by omega, by omega, hcancel⟩
      · rintro ⟨r, hle, hge, hcancel⟩
        have hne : s.nextScanline ≠ r := by
          rintro rfl
          exact hgo hcancel
        exact ⟨r, by omega, by omega, hcancel⟩

/-- An encoding is cancelled at some line, or at the end. -/
def Cancelled (p : Params) (env : Env) : Prop :=
  ∃ r ≤ p.outHeight.toNatClampNeg, env.cancel r = true

theorem compress_cancelled (lib : Libjpeg) (dest : DestMgr) (job : Job) :
    (compress lib dest job true).jpegsize = 0 := by
  have hkept : ∀ (bytes : List UInt8) (d : DestMgr),
      (bytes.foldl DestMgr.emit d).jpegsize = d.jpegsize := by
    intro bytes
    induction bytes with
    | nil => exact fun _ => rfl
    | cons byte bytes ih =>
      intro d
      rw [List.foldl_cons, ih, DestMgr.emit]
      split <;> rfl
  rw [compress, if_pos rfl, hkept, DestMgr.initDestination]

theorem compress_finished (lib : Libjpeg) (dest : DestMgr) (job : Job) (hB : 0 < dest.bufsize) :
    ∃ flushed held d, flushed ++ held = lib.stream job ∧ Holds dest.bufsize flushed held d ∧
      compress lib dest job false = d.termDestination := by
  obtain ⟨flushed, held, happ, hheld⟩ := (holds_init dest hB).emits (lib.stream job)
  refine ⟨flushed, held, _, happ, hheld, ?_⟩
  rw [compress, if_neg (by decide), Libjpeg.stream, List.foldl_append]

theorem delivers_or_zero {B : Nat} {flushed held : List UInt8} {d : DestMgr}
    (h : Holds B flushed held d) (job : Option Job) :
    let e : Encoded :=
      { jpegSize := d.termDestination.jpegsize, job, dest := d.termDestination }
    Delivers e (flushed ++ held) ∨ e.jpegSize = 0 ↔ Ends B (flushed ++ held).length := by
  obtain ⟨hsize, hbuf⟩ := h.term
  dsimp only
  rw [← h.ends_iff, Delivers, hsize, hbuf, List.length_eq_zero_iff]
  refine or_congr ?_ Iff.rfl
  exact ⟨fun happ => List.append_left_eq_self.mp happ.symm, fun hnil => by rw [hnil]; rfl⟩

/-- The bytes are delivered, or 0 is returned, only if the encoding is cancelled or the bytes end
well. -/
theorem encode_lossless_iff {lib : Libjpeg} {p : Params} {env : Env} {e : Encoded} {job : Job}
    (he : encode lib p env = some e) (hjob : e.job = some job) :
    Delivers e (lib.stream job) ∨ e.jpegSize = 0 ↔
      Cancelled p env ∨ Ends p.dstSize.toNatClampNeg (lib.stream job).length := by
  rw [encode] at he
  split at he
  next hgo =>
    obtain ⟨src, -, rfl⟩ := Option.map_eq_some_iff.mp he
    have hB : 0 < p.destMgr.bufsize := by
      have hdst := Int32.le_iff_toInt_le.mp hgo.1.2.2.2.2.2.2.2.2.1
      have hone : (1 : Int32).toInt = 1 := rfl
      have hsize : p.destMgr.bufsize = p.dstSize.toInt.toNat := rfl
      omega
    have hcancelled : env.cancel (encodeRows p src env.cancel p.outHeight.toNatClampNeg
        p.firstRow).nextScanline = true ↔ Cancelled p env := by
      rw [encodeRows_cancelled, Cancelled, show p.firstRow.nextScanline = 0 from rfl]
      simp only [Nat.zero_le, Nat.zero_add, true_and]
    cases hjob
    by_cases hcancel : Cancelled p env
    · have hzero : (encodeFrom lib p env src).jpegSize = 0 := by
        rw [encodeFrom, hcancelled.mpr hcancel]
        exact compress_cancelled ..
      exact ⟨fun _ => Or.inl hcancel, fun _ => Or.inr hzero⟩
    · rw [or_iff_right hcancel]
      obtain ⟨flushed, held, d, happ, hheld, hd⟩ := compress_finished lib p.destMgr
        (p.job (encodeRows p src env.cancel p.outHeight.toNatClampNeg p.firstRow)) hB
      rw [← hcancelled, Bool.not_eq_true] at hcancel
      rw [encodeFrom, hcancel, hd, ← happ]
      exact delivers_or_zero hheld _
  next =>
    cases he
    cases hjob

/-- A picture of two by two pixels, and a libjpeg that stores three bytes. -/
def small : Params :=
  { src := some fun _ => 0, srcSize := 6, dst := some fun _ => 0, dstSize := 2, quality := 90
    inWidth := 2, inHeight := 2, outWidth := 2, outHeight := 2, format := some .yuv420sp }

def threeBytes : Libjpeg := ⟨fun _ => [255, 216], fun _ => [217]⟩

def smallEncoded : Encoded := encodeFrom threeBytes small {} fun _ => 0

def smallJob : Job :=
  { imageWidth := 2, imageHeight := 2, quality := 90
    lines := [nv21ToYuv (fun _ => 0) 2 0 4, nv21ToYuv (fun _ => 0) 2 2 4] }

theorem encode_small : encode threeBytes small {} = some smallEncoded := by
  have hsource : source small {} (small.src.getD fun _ => 0) = some fun _ => 0 :=
    if_neg (by decide)
  rw [encode_eq (by decide) (Or.inl rfl), hsource]
  rfl

theorem encode_lossless_iff_small :
    Delivers smallEncoded [255, 216, 217] ∨ smallEncoded.jpegSize = 0 ↔
      Cancelled small {} ∨ Ends 2 3 :=
  encode_lossless_iff encode_small (show smallEncoded.job = some smallJob from rfl)

/-- The third byte is stored over the first, and is all that is counted. -/
theorem small_lost : ¬ ∀ lib p env e job, encode lib p env = some e → e.job = some job →
    Delivers e (lib.stream job) ∨ e.jpegSize = 0 := by
  intro hall
  rcases hall threeBytes small {} smallEncoded smallJob encode_small rfl with hbytes | hzero
  · exact absurd (congrArg List.length hbytes) (by decide)
  · exact absurd hzero (by decide)

end Omap4Hal.Camera.JpegEncoder

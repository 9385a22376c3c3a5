import Mathlib.Data.List.Forall2
import Omap4Hal.Lib.Run

/- The faces that are reported to the application (`OMXCameraAdapter::encodeFaceCoordinates` of
   `OMXFD.cpp`): those with a score above the threshold, each replaced by a face of the last output
   that it has hardly moved from.

   The scaling to Android coordinates is done in floating point; a detected face comes with the
   scaled values here. A `none` is an index outside of an array. The number of faces is the device's
   and is not compared with the size of the arrays, and where all faces are filtered out the empty
   output takes the place of the last one (`smoothing_right_iff`). -/
namespace Omap4Hal.Camera.FaceSmoothing

open Lib

/-! ## The code -/

/-- MAX_NUM_FACES_SUPPORTED, also the size of `tFacePosition` -/
def maxNumFaces : Nat := 35

/-- FACE_DETECTION_THRESHOLD -/
def threshold : UInt32 := 80

/-- HorizontalFilterThreshold and VerticalFilterThreshold -/
def filterThreshold : Nat := 40

/-- HorizontalFaceSizeThreshold and VerticalFaceSizeThreshold -/
def sizeThreshold : Nat := 30

/-- `CameraFDResult::INVALID_DATA` -/
def invalidData : Int := -2000

/-- `OMX_TI_FACERESULT` with its left and top in Android coordinates, and with the sums of these and
the scaled width and height. -/
structure FaceResult where
  nScore : UInt32
  left : Int
  top : Int
  right : Int
  bottom : Int

structure Face where
  rect0 : Int
  rect1 : Int
  rect2 : Int
  rect3 : Int
  score : Int32
  id : Int := 0
  left_eye : Int × Int := (invalidData, invalidData)
  right_eye : Int × Int := (invalidData, invalidData)
  mouth : Int × Int := (invalidData, invalidData)
  deriving DecidableEq

/-- `OMX_FACEDETECTIONTYPE`, whose count the device sets. -/
structure FaceData where
  ulFaceCount : UInt16
  tFacePosition : Vector FaceResult maxNumFaces

/-- The sides by `trans_left`, `trans_top`, `trans_right` and `trans_bot`, in this order; `rotated`
is an orientation of 180 degrees. -/
def Face.sides (rotated : Bool) (f : Face) : Int × Int × Int × Int :=
  if rotated then (f.rect2, f.rect3, f.rect0, f.rect1) else (f.rect0, f.rect1, f.rect2, f.rect3)

/-- A detected face in the order of Android. -/
def convert (rotated : Bool) (p : FaceResult) : Face :=
  if rotated then
    { rect0 := p.right, rect1 := p.bottom, rect2 := p.left, rect3 := p.top
      score := p.nScore.toInt32 }
  else
    { rect0 := p.left, rect1 := p.top, rect2 := p.right, rect3 := p.bottom
      score := p.nScore.toInt32 }

/-- The first loop, from the index `j` on: the faces that pass the filter. -/
def filterFaces (rotated : Bool) (ps : Vector FaceResult maxNumFaces) :
    Nat → Nat → Option (List Face)
  | 0, _ => some []
  | n + 1, j => do
    let p ← ps[j]?
    let faces ← filterFaces rotated ps n (j + 1)
    if p.nScore ≤ threshold then return faces else return convert rotated p :: faces

/-- `centerX`, `centerY`, `sizeX` and `sizeY` -/
def Face.measures (rotated : Bool) (f : Face) : Int × Int × Int × Int :=
  let (left, top, right, bottom) := f.sides rotated
  ((left + right).tdiv 2, (top + bottom).tdiv 2, right - left, bottom - top)

/-- The two comparisons: the face did not move too far, and has almost the same size. -/
def near (rotated : Bool) (f last : Face) : Bool :=
  let (centerX, centerY, sizeX, sizeY) := f.measures rotated
  let (tempCenterX, tempCenterY, tempSizeX, tempSizeY) := last.measures rotated
  (tempCenterX - centerX).natAbs < filterThreshold &&
    (tempCenterY - centerY).natAbs < filterThreshold &&
    (tempSizeX - sizeX).natAbs < sizeThreshold && (tempSizeY - sizeY).natAbs < sizeThreshold

/-- The inner loop over the last output, with the measures of the face as it was converted. -/
def smooth (rotated : Bool) (last : List Face) (f : Face) : Face :=
  last.foldl (fun face l => if near rotated f l then l else face) f

/-- The loop that saves the output. -/
def save (faces : List Face) : Option (List Face) :=
  if faces.length ≤ maxNumFaces then some faces else none

/-- `encodeFaceCoordinates` where `malloc` succeeds: the output, and the first
`faceDetectionNumFacesLastOutput` entries of `faceDetectionLastOutput` behind it. -/
def encodeFaceCoordinates (rotated : Bool) (last : List Face) (faceData : FaceData) :
    Option (List Face × List Face) :=
  if 0 < faceData.ulFaceCount then do
    let faces ← filterFaces rotated faceData.tFacePosition faceData.ulFaceCount.toNat 0
    let faces := faces.map (smooth rotated last)
    let last ← save faces
    return (faces, last)
  else some ([], last)

/-! ## Runs -/

/-- One call, with the orientation of the device at the time. -/
structure Call where
  rotated : Bool
  faceData : FaceData

/-- What is saved, and the outputs so far. -/
structure Detector where
  last : List Face := []
  outputs : List (List Face) := []

def step (d : Detector) (c : Call) : Option Detector :=
  (encodeFaceCoordinates c.rotated d.last c.faceData).map fun r =>
    { last := r.2, outputs := d.outputs ++ [r.1] }

/-- The detected faces with a score above the threshold, converted, in order. -/
def Call.passed (c : Call) : List Face :=
  ((c.faceData.tFacePosition.toList.take c.faceData.ulFaceCount.toNat).filter
    fun p => threshold < p.nScore).map (convert c.rotated)

def lastNonEmpty (outputs : List (List Face)) : List Face :=
  ((outputs.filter fun faces => faces ≠ []).getLast?).getD []

/-- A face of the output: one of the last output that it is near to, if there is such a one. -/
def Smoothed (rotated : Bool) (last : List Face) (f face : Face) : Prop :=
  if ∃ l ∈ last, near rotated f l then face ∈ last ∧ near rotated f face else face = f

/-- What a call is to answer. -/
def Answers (d : Detector) (c : Call) : Prop :=
  ∃ faces last, encodeFaceCoordinates c.rotated d.last c.faceData = some (faces, last) ∧
    List.Forall₂ (Smoothed c.rotated d.last) c.passed faces

/-- Every call answers, and what is saved is the last output that is not empty. -/
def Right (d : Detector) (calls : List Call) : Prop :=
  Guarded step Answers d calls ∧ Always step (fun d => d.last = lastNonEmpty d.outputs) d calls

/-- The device's number is one of the array, and faces that are all filtered out do not come behind
an output with faces. -/
def Fits (d : Detector) (c : Call) : Prop :=
  c.faceData.ulFaceCount.toNat ≤ maxNumFaces ∧
    (0 < c.faceData.ulFaceCount → c.passed = [] → d.last = [])

/-! ## One call -/

theorem foldl_cases {α : Type} (p : α → Bool) (xs : List α) (a : α) :
    (xs.foldl (fun b x => if p x then x else b) a = a ∧ ∀ x ∈ xs, ¬ p x) ∨
      (xs.foldl (fun b x => if p x then x else b) a ∈ xs ∧
        p (xs.foldl (fun b x => if p x then x else b) a)) := by
  induction xs generalizing a with
  | nil => exact Or.inl ⟨rfl, fun _ hx => absurd hx List.not_mem_nil⟩
  | cons x xs ih =>
    rw [List.foldl_cons]
    by_cases hx : p x
    · rw [if_pos hx]
      rcases ih x with ⟨heq, -⟩ | ⟨hmem, hp⟩
      · rw [heq]
        exact Or.inr ⟨List.mem_cons_self, hx⟩
      · exact Or.inr ⟨List.mem_cons_of_mem x hmem, hp⟩
    · rw [if_neg hx]
      rcases ih a with ⟨heq, hnone⟩ | ⟨hmem, hp⟩
      · exact Or.inl ⟨heq, List.forall_mem_cons.mpr ⟨hx, hnone⟩⟩
      · exact Or.inr ⟨List.mem_cons_of_mem x hmem, hp⟩

theorem smooth_spec (rotated : Bool) (last : List Face) (f : Face) :
    Smoothed rotated last f (smooth rotated last f) := by
  rw [Smoothed, smooth]
  rcases foldl_cases (near rotated f) last f with ⟨heq, hnone⟩ | ⟨hmem, hnear⟩
  · have hfree : ¬ ∃ l ∈ last, near rotated f l := fun ⟨l, hl, hnear⟩ => hnone l hl hnear
    rw [if_neg hfree]
    exact heq
  · rw [if_pos ⟨_, hmem, hnear⟩]
    exact ⟨hmem, hnear⟩

theorem filterFaces_eq (rotated : Bool) (ps : Vector FaceResult maxNumFaces) {n j : Nat}
    (h : j + n ≤ maxNumFaces) : filterFaces rotated ps n j =
      some ((((ps.toList.drop j).take n).filter fun p => threshold < p.nScore).map
        (convert rotated)) := by
  induction n generalizing j with
  | zero => rw [filterFaces, List.take_zero]; rfl
  | succ n ih =>
    have hj : j < maxNumFaces := by omega
    have hlist : j < ps.toList.length := by rwa [Vector.length_toList]
    have hread : ps[j]? = some ps.toList[j] := by
      rw [Vector.getElem_toList]
      exact Vector.getElem?_eq_getElem hj
    rw [filterFaces, hread, ih (by omega), List.drop_eq_getElem_cons hlist, List.take_succ_cons]
    by_cases hscore : ps.toList[j].nScore ≤ threshold
    · rw [List.filter_cons_of_neg (by simpa using hscore)]
      exact if_pos hscore
    · rw [List.filter_cons_of_pos (by simpa using hscore), List.map_cons]
      exact if_neg hscore

theorem filterFaces_outside (rotated : Bool) (ps : Vector FaceResult maxNumFaces) {n j : Nat}
    (hj : j ≤ maxNumFaces) (h : maxNumFaces < j + n) : filterFaces rotated ps n j = none := by
  induction n generalizing j with
  | zero => omega
  | succ n ih =>
    rw [filterFaces]
    rcases Nat.lt_or_ge j maxNumFaces with hlt | hge
    · rw [Vector.getElem?_eq_getElem hlt, ih hlt (by omega)]
      rfl
    · rw [Vector.getElem?_eq_none hge]
      rfl

variable {c : Call}

theorem passed_length (h : c.faceData.ulFaceCount.toNat ≤ maxNumFaces) :
    c.passed.length ≤ maxNumFaces := by
  rw [Call.passed, List.length_map]
  calc _ ≤ (c.faceData.tFacePosition.toList.take c.faceData.ulFaceCount.toNat).length :=
        List.length_filter_le _ _
    _ ≤ c.faceData.ulFaceCount.toNat := List.length_take_le _ _
    _ ≤ maxNumFaces := h

theorem passed_zero (h : ¬ 0 < c.faceData.ulFaceCount) : c.passed = [] := by
  have hzero : c.faceData.ulFaceCount.toNat = 0 := by
    rw [UInt16.lt_iff_toNat_lt] at h
    exact Nat.eq_zero_of_not_pos h
  rw [Call.passed, hzero, List.take_zero]
  rfl

theorem encode_eq (last : List Face) (h : c.faceData.ulFaceCount.toNat ≤ maxNumFaces) :
    encodeFaceCoordinates c.rotated last c.faceData = some (c.passed.map (smooth c.rotated last),
      if 0 < c.faceData.ulFaceCount then c.passed.map (smooth c.rotated last) else last) := by
  rw [encodeFaceCoordinates]
  by_cases hcount : 0 < c.faceData.ulFaceCount
  · have hfilter := filterFaces_eq c.rotated c.faceData.tFacePosition
      (show 0 + c.faceData.ulFaceCount.toNat ≤ maxNumFaces by omega)
    have hsave : save (c.passed.map (smooth c.rotated last)) = some _ :=
      if_pos (by rw [List.length_map]; exact passed_length h)
    rw [if_pos hcount, if_pos hcount, hfilter]
    show ((save (c.passed.map (smooth c.rotated last))).bind fun last' =>
      some (c.passed.map (smooth c.rotated last), last')) = _
    rw [hsave]
    rfl
  · rw [if_neg hcount, if_neg hcount, passed_zero hcount]
    rfl

theorem encode_outside (last : List Face) (h : maxNumFaces < c.faceData.ulFaceCount.toNat) :
    encodeFaceCoordinates c.rotated last c.faceData = none := by
  have hcount : 0 < c.faceData.ulFaceCount := by
    rw [UInt16.lt_iff_toNat_lt]
    exact Nat.lt_of_le_of_lt (Nat.zero_le _) h
  rw [encodeFaceCoordinates, if_pos hcount,
    filterFaces_outside _ _ (Nat.zero_le _) (by omega)]
  rfl

theorem answers_of_count (d : Detector) (h : c.faceData.ulFaceCount.toNat ≤ maxNumFaces) :
    Answers d c := by
  refine ⟨_, _, encode_eq d.last h, ?_⟩
  rw [List.forall₂_map_right_iff, List.forall₂_same]
  exact fun f _ => smooth_spec c.rotated d.last f

/-! ## What is saved -/

theorem lastNonEmpty_append (outputs : List (List Face)) (faces : List Face) :
    lastNonEmpty (outputs ++ [faces]) = if faces = [] then lastNonEmpty outputs else faces := by
  rw [lastNonEmpty, List.filter_append]
  by_cases hnone : faces = []
  · rw [if_pos hnone, List.filter_cons_of_neg (by simpa using hnone)]
    simp [lastNonEmpty]
  · rw [if_neg hnone, List.filter_cons_of_pos (by simpa using hnone)]
    simp

/-- A call with a count of the array saves the last output that is not empty exactly if it does not
put an empty one in its place. -/
theorem step_saves_iff {d : Detector} (hd : d.last = lastNonEmpty d.outputs)
    (h : c.faceData.ulFaceCount.toNat ≤ maxNumFaces) :
    ∃ d', step d c = some d' ∧ (d'.last = lastNonEmpty d'.outputs ↔
      (0 < c.faceData.ulFaceCount → c.passed = [] → d.last = [])) := by
  have hstep : step d c = some
      { last := if 0 < c.faceData.ulFaceCount then c.passed.map (smooth c.rotated d.last)
          else d.last
        outputs := d.outputs ++ [c.passed.map (smooth c.rotated d.last)] } := by
    rw [step, encode_eq d.last h]
    rfl
  refine ⟨_, hstep, ?_⟩
  simp only [lastNonEmpty_append, List.map_eq_nil_iff, ← hd]
  by_cases hcount : 0 < c.faceData.ulFaceCount
  · by_cases hnone : c.passed = []
    · simp only [hcount, hnone, if_true, List.map_nil, true_imp_iff]
      exact eq_comm
    · simp only [hcount, hnone, if_true, if_false, false_imp_iff, imp_true_iff]
  · have hnone := passed_zero hcount
    simp only [hcount, hnone, if_true, if_false, false_imp_iff]

theorem step_outside {d : Detector} (h : maxNumFaces < c.faceData.ulFaceCount.toNat) :
    step d c = none := by
  rw [step, encode_outside d.last h]
  rfl

/-! ## Runs of calls -/

/-- In every run the calls answer, and the last output that is not empty is saved, exactly if no
count goes beyond the array and the filter alone empties no output behind one with faces. -/
theorem smoothing_right_iff (calls : List Call) : Right {} calls ↔ Guarded step Fits {} calls := by
  have halways : Always step (fun d => d.last = lastNonEmpty d.outputs) {} calls ↔
      Guarded step Fits {} calls := by
    refine always_iff_guarded_under (J := fun d : Detector => d.last = lastNonEmpty d.outputs)
      (fun _ hd => hd) ?_ ?_ rfl (guarded_true _ _)
    · intro d c hd _ hfits
      obtain ⟨d', hstep, hsaved⟩ := step_saves_iff hd hfits.1
      exact ⟨d', hstep, hsaved.mpr hfits.2⟩
    · intro d c d' hd _ hfits hstep hsaved
      by_cases hcount : c.faceData.ulFaceCount.toNat ≤ maxNumFaces
      · obtain ⟨e, he, hiff⟩ := step_saves_iff hd hcount
        cases he.symm.trans hstep
        exact hfits ⟨hcount, hiff.mp hsaved⟩
      · rw [step_outside (Nat.lt_of_not_le hcount)] at hstep
        cases hstep
  rw [Right, halways]
  refine and_iff_right_of_imp fun hguarded => ?_
  exact hguarded.mono (J := fun _ => True) (fun d c _ hfits => answers_of_count d hfits.1)
    (fun _ _ _ _ _ _ => trivial) trivial

/-- A count of 36. -/
def tooMany : Call :=
  ⟨false, ⟨36, Vector.replicate maxNumFaces ⟨90, 0, 0, 100, 100⟩⟩⟩

/-- The loop reads behind the array. -/
theorem count_unchecked : ¬ ∀ calls : List Call, Right {} calls := by
  intro hall
  obtain ⟨faces, last, hencode, -⟩ := (hall [tooMany]).1.1
  rw [encode_outside (c := tooMany) _ (by decide)] at hencode
  cases hencode

end Omap4Hal.Camera.FaceSmoothing

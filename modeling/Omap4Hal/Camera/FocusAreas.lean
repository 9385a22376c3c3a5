import Omap4Hal.Camera.AreaText
import Omap4Hal.Lib.Run

/- The focus areas of a set of parameters (`OMXCameraAdapter::setParametersFocus` of
   `OMXFocus.cpp`).

   The areas are stored before their number is compared with the maximum, and it is compared only
   where they are not the stored ones. So a run of calls is transactional exactly if none of them
   has more areas than its maximum (`areas_transactional_iff`). -/
namespace Omap4Hal.Camera.FocusAreas

open Lib AreaText

/-! ## The code -/

def compare (a b : CameraArea) : Bool :=
  a.top = b.top && a.left = b.left && a.bottom = b.bottom && a.right = b.right &&
    a.weight = b.weight

def areAreasDifferent (area1 area2 : List CameraArea) : Bool :=
  if area1.length ≠ area2.length then true
  else (area1.zip area2).any fun p => !compare p.1 p.2

/-- The two parameters that are read: `KEY_FOCUS_AREAS`, which can be missing, and
`KEY_MAX_NUM_FOCUS_AREAS`. -/
structure Params where
  focusAreas : Option (List Char)
  maxNumFocusAreas : List Char

/-- `MAX_FOCUS_AREAS`, which is a `size_t`. -/
def Params.max (p : Params) : Nat := (atoi p.maxNumFocusAreas).toUInt32.toNat

/-- `ret` and `tempAreas` once the string is parsed. -/
def Params.parsed (p : Params) : Status × List CameraArea :=
  match p.focusAreas with
  | none => (.noError, [])
  | some str => parseAreas str []

/-- The stored areas, and those that `setTouchFocus` has been called with. -/
structure Adapter where
  mFocusAreas : List CameraArea
  applied : List (List CameraArea)

def Adapter.setTouchFocus (a : Adapter) : Adapter :=
  { a with applied := a.applied ++ [a.mFocusAreas] }

/-- `OMXCameraAdapter::setParametersFocus` -/
def setParametersFocus (a : Adapter) (p : Params) : Status × Adapter :=
  if p.parsed.1 = .noError ∧ areAreasDifferent a.mFocusAreas p.parsed.2 then
    let a' := { a with mFocusAreas := p.parsed.2 }
    if p.max < a'.mFocusAreas.length then (.einval, a')
    else if a'.mFocusAreas ≠ [] then (.noError, a'.setTouchFocus)
    else (.noError, a')
  else (p.parsed.1, a)

def step (a : Adapter) (p : Params) : Option Adapter := some (setParametersFocus a p).2

/-! ## Transactions -/

/-- The string is parsed, and the areas are not more than the maximum. -/
def Params.Allowed (p : Params) : Prop :=
  p.parsed.1 = .noError ∧ p.parsed.2.length ≤ p.max

/-- What a call is to do: its own parameters decide whether it is accepted, and either nothing is
stored or all areas are, and applied where they are new. -/
structure Transactional (a : Adapter) (p : Params) : Prop where
  verdict : (setParametersFocus a p).1 = .noError ↔ p.Allowed
  rejected : (setParametersFocus a p).1 ≠ .noError →
    (setParametersFocus a p).2.mFocusAreas = a.mFocusAreas
  accepted : (setParametersFocus a p).1 = .noError →
    (setParametersFocus a p).2.mFocusAreas = p.parsed.2
  applied : (setParametersFocus a p).1 = .noError →
    p.parsed.2 ≠ a.mFocusAreas → p.parsed.2 ≠ [] →
      (setParametersFocus a p).2.applied = a.applied ++ [p.parsed.2]

/-- The string is parsed, but the areas are too many. -/
def Params.TooMany (p : Params) : Prop :=
  p.parsed.1 = .noError ∧ p.max < p.parsed.2.length

theorem compare_iff (a b : CameraArea) : compare a b = true ↔ a = b := by
  cases a
  cases b
  simp [compare, and_assoc]

theorem areAreasDifferent_iff (xs ys : List CameraArea) :
    areAreasDifferent xs ys = true ↔ xs ≠ ys := by
  have hsame : ∀ xs ys : List CameraArea, xs.length = ys.length →
      ((xs.zip ys).any fun p => !compare p.1 p.2) = decide (xs ≠ ys) := by
    intro xs
    induction xs with
    | nil =>
      intro ys hlen
      rw [List.length_eq_zero_iff.mp hlen.symm]
      rfl
    | cons x xs ih =>
      intro ys hlen
      cases ys with
      | nil => cases hlen
      | cons y ys =>
        rw [List.zip_cons_cons, List.any_cons, ih ys (Nat.succ.inj hlen), Bool.eq_iff_iff]
        simp only [Bool.or_eq_true, Bool.not_eq_true', decide_eq_true_iff, Bool.eq_false_iff,
          ne_eq, compare_iff, List.cons.injEq, not_and_or]
  unfold areAreasDifferent
  split_ifs with hlen
  · exact iff_of_true rfl fun heq => hlen (congrArg List.length heq)
  · rw [hsame xs ys (not_not.mp hlen), decide_eq_true_iff]

/-! ## One call -/

theorem setParametersFocus_same {a : Adapter} {p : Params}
    (h : ¬(p.parsed.1 = .noError ∧ a.mFocusAreas ≠ p.parsed.2)) :
    setParametersFocus a p = (p.parsed.1, a) := by
  rw [← areAreasDifferent_iff] at h
  exact if_neg h

theorem setParametersFocus_tooMany {a : Adapter} {p : Params} (h : p.TooMany)
    (hdiff : a.mFocusAreas ≠ p.parsed.2) :
    setParametersFocus a p = (.einval, { a with mFocusAreas := p.parsed.2 }) := by
  rw [setParametersFocus, if_pos ⟨h.1, (areAreasDifferent_iff _ _).mpr hdiff⟩]
  exact if_pos h.2

theorem setParametersFocus_allowed {a : Adapter} {p : Params} (h : p.Allowed)
    (hdiff : a.mFocusAreas ≠ p.parsed.2) :
    setParametersFocus a p = (.noError, ⟨p.parsed.2,
      if p.parsed.2 ≠ [] then a.applied ++ [p.parsed.2] else a.applied⟩) := by
  rw [setParametersFocus, if_pos ⟨h.1, (areAreasDifferent_iff _ _).mpr hdiff⟩]
  refine (if_neg (Nat.not_lt.mpr h.2)).trans ?_
  show (if p.parsed.2 ≠ [] then _ else _) = _
  split_ifs <;> rfl

theorem transactional_call_iff (a : Adapter) (p : Params) : Transactional a p ↔ ¬ p.TooMany := by
  constructor
  · intro h hmany
    by_cases hdiff : a.mFocusAreas = p.parsed.2
    · have hcall := setParametersFocus_same fun hnew : _ ∧ _ => hnew.2 hdiff
      have hallowed := h.verdict.mp (by rw [hcall, hmany.1])
      exact absurd hmany.2 (Nat.not_lt.mpr hallowed.2)
    · have hcall := setParametersFocus_tooMany hmany hdiff
      have hstored := h.rejected (by rw [hcall]; exact Status.noConfusion)
      rw [hcall] at hstored
      exact hdiff hstored.symm
  · intro hfew
    by_cases hparsed : p.parsed.1 = .noError
    · have hallowed : p.Allowed := ⟨hparsed, Nat.not_lt.mp fun hlt => hfew ⟨hparsed, hlt⟩⟩
      by_cases hdiff : a.mFocusAreas = p.parsed.2
      · have hcall := setParametersFocus_same fun hnew : _ ∧ _ => hnew.2 hdiff
        rw [hparsed] at hcall
        refine ⟨?_, ?_, ?_, ?_⟩
        · rw [hcall]
          exact iff_of_true rfl hallowed
        · rw [hcall]
          exact fun hne => absurd rfl hne
        · rw [hcall]
          exact fun _ => hdiff
        · exact fun _ hnew => absurd hdiff.symm hnew
      · have hcall := setParametersFocus_allowed hallowed hdiff
        refine ⟨?_, ?_, ?_, ?_⟩
        · rw [hcall]
          exact iff_of_true rfl hallowed
        · rw [hcall]
          exact fun hne => absurd rfl hne
        · rw [hcall]
          exact fun _ => rfl
        · rw [hcall]
          exact fun _ _ hne => if_pos hne
    · have hcall := setParametersFocus_same fun hnew : _ ∧ a.mFocusAreas ≠ _ => hparsed hnew.1
      refine ⟨?_, ?_, ?_, ?_⟩
      · rw [hcall]
        exact iff_of_false hparsed fun hallowed => hparsed hallowed.1
      · rw [hcall]
        exact fun _ => rfl
      · rw [hcall]
        exact fun hok => absurd hok hparsed
      · rw [hcall]
        exact fun hok => absurd hok hparsed

/-- Every call of a run is a transaction exactly if none has too many areas. -/
theorem areas_transactional_iff (a : Adapter) (calls : List Params) :
    Guarded step Transactional a calls ↔ ∀ p ∈ calls, ¬ p.TooMany := by
  rw [← guarded_iff_forall (fun a p => ⟨(setParametersFocus a p).2, rfl⟩) a]
  exact guarded_congr (fun a p _ => transactional_call_iff a p) (fun _ _ _ _ _ _ => trivial) trivial

/-- An area where none is allowed. -/
def refused : Params := ⟨some "(1,1,2,2,1)".toList, "0".toList⟩

/-- It is refused, but stored, and then the same area is accepted. -/
theorem refused_stored : ¬ ∀ (a : Adapter) (calls : List Params),
    Guarded step Transactional a calls := by
  intro hall
  have hcall := (hall ⟨[], []⟩ [refused]).1
  have hstored := hcall.rejected (by decide)
  exact absurd hstored (by decide)

end Omap4Hal.Camera.FocusAreas

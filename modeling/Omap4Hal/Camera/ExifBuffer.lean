import Mathlib.Algebra.Order.BigOperators.Group.List
import Mathlib.Algebra.Order.Ring.Nat
import Omap4Hal.Lib.StringBuffer

/- The shared buffer of the EXIF tags (camera/OMXCameraAdapter/OMXExif.cpp), from where
   `OMX_GetConfig` has filled in the tags. Five strings follow the tag structure; a running pointer
   sets their places aside. The places are right for all tags and strings, but the copies are
   bounded: a string that is too long has no zero behind it unless the memory had one there
   (`layout_iff`).

   Places in the buffer are counted from its start. The tag structure, which is in front of the
   strings, is kept apart (`exifTags`); a read behind the buffer ends the run. -/
namespace Omap4Hal.Camera.ExifBuffer

open Lib

/-! ## The buffer -/

def EXIF_MODEL_SIZE : Nat := 100
def EXIF_MAKE_SIZE : Nat := 100
def EXIF_DATE_TIME_SIZE : Nat := 20
def GPS_MAPDATUM_SIZE : Nat := 100
def GPS_PROCESSING_SIZE : Nat := 100

/-- `sizeof(OMX_TI_CONFIG_EXIF_TAGS)`, with pointers of four bytes. -/
def tagsSize : Nat := 2944

def bufSize : Nat :=
  (tagsSize + EXIF_MODEL_SIZE + EXIF_MAKE_SIZE + EXIF_DATE_TIME_SIZE + GPS_MAPDATUM_SIZE +
    GPS_PROCESSING_SIZE + 4095) / 4096 * 4096

/-- The tags with a string in the buffer. -/
inductive Field where
  | model | make | dateTime | mapDatum | processingMethod
  deriving DecidableEq

/-- What the running pointer sets aside. -/
def Field.size : Field → Nat
  | .model => EXIF_MODEL_SIZE
  | .make => EXIF_MAKE_SIZE
  | .dateTime => EXIF_DATE_TIME_SIZE
  | .mapDatum => GPS_MAPDATUM_SIZE
  | .processingMethod => GPS_PROCESSING_SIZE

/-- `OMX_TI_EXIFTAGSTATUS` -/
inductive TagStatus where
  | readOnly | readWrite | updated
  deriving DecidableEq

structure Tag where
  status : TagStatus
  buff : Nat
  sizeBytes : Nat

/-- The camera parameters: `none` is `NULL`. -/
structure Params where
  exifModel : Option CStr
  exifMake : Option CStr
  mapDatum : Option CStr
  processingMethod : Option CStr

structure ExifData where
  modelValid : Bool
  makeValid : Bool
  mapDatum : Nat → UInt8
  mapDatumValid : Bool
  procMethod : Nat → UInt8
  procMethodValid : Bool

/-- The strings of `setParametersEXIF`. -/
def setParametersEXIF (params : Params) (exif : ExifData) : ExifData where
  procMethod :=
    match params.processingMethod with
    | some valstr => strncpy exif.procMethod 0 valstr (GPS_PROCESSING_SIZE - 1)
    | none => exif.procMethod
  procMethodValid := params.processingMethod.isSome
  mapDatum :=
    match params.mapDatum with
    | some valstr => strncpy exif.mapDatum 0 valstr (GPS_MAPDATUM_SIZE - 1)
    | none => exif.mapDatum
  mapDatumValid := params.mapDatum.isSome
  modelValid := params.exifModel.isSome
  makeValid := params.exifMake.isSome

structure Tm where
  year : Int
  mon : Int
  mday : Int
  hour : Int
  min : Int
  sec : Int

/-- `%0wd` -/
def paddedInt (w : Nat) (v : Int) : List Char :=
  let sign := if v < 0 then ['-'] else []
  let digits := Nat.toDigits 10 v.natAbs
  sign ++ List.replicate (w - sign.length - digits.length) '0' ++ digits

def dateTimeText (t : Tm) : List UInt8 :=
  (paddedInt 4 (t.year + 1900) ++ ':' :: paddedInt 2 (t.mon + 1) ++ ':' :: paddedInt 2 t.mday ++
    ' ' :: paddedInt 2 t.hour ++ ':' :: paddedInt 2 t.min ++ ':' :: paddedInt 2 t.sec).map
    fun c => c.toNat.toUInt8

structure State where
  shared : Nat → UInt8
  sharedPtr : Nat
  exifTags : Field → Tag

/-- `eStatus… = OMX_TI_TagUpdated`, with the offset and the size. -/
def State.update (st : State) (f : Field) (sizeBytes : Nat) : Field → Tag :=
  Function.update st.exifTags f ⟨.updated, st.sharedPtr, sizeBytes⟩

@[simp] theorem State.update_self (st : State) (f : Field) (n : Nat) :
    st.update f n f = ⟨.updated, st.sharedPtr, n⟩ := Function.update_self ..

/-- The model and the make. -/
def stringBlock (f : Field) (size : Nat) (valid : Bool) (value : Option CStr) (st : State) :
    Option State :=
  if (st.exifTags f).status = .readWrite ∧ valid = true then do
    let s ← value
    let shared := strncpy st.shared st.sharedPtr s (size - 1)
    let len ← strlen shared bufSize st.sharedPtr
    return {
      shared := shared
      sharedPtr := st.sharedPtr + size
      exifTags := st.update f (len + 1) }
  else some st

def modelBlock (params : Params) (exif : ExifData) : State → Option State :=
  stringBlock .model EXIF_MODEL_SIZE exif.modelValid params.exifModel

def makeBlock (params : Params) (exif : ExifData) : State → Option State :=
  stringBlock .make EXIF_MAKE_SIZE exif.makeValid params.exifMake

/-- Nothing is printed where the time is not known. -/
def dateTimeBlock (pTime : Option Tm) (st : State) : State :=
  if (st.exifTags .dateTime).status = .readWrite then {
    shared :=
      match pTime with
      | some t => snprintf st.shared st.sharedPtr EXIF_DATE_TIME_SIZE (dateTimeText t)
      | none => st.shared
    sharedPtr := st.sharedPtr + EXIF_DATE_TIME_SIZE
    exifTags := st.update .dateTime EXIF_DATE_TIME_SIZE }
  else st

def mapDatumBlock (exif : ExifData) (st : State) : State :=
  if (st.exifTags .mapDatum).status = .readWrite ∧ exif.mapDatumValid = true then {
    shared := overwrite st.shared st.sharedPtr GPS_MAPDATUM_SIZE exif.mapDatum
    exifTags := st.update .mapDatum GPS_MAPDATUM_SIZE
    sharedPtr := st.sharedPtr + GPS_MAPDATUM_SIZE }
  else st

/-- The character code is in front of the string. -/
def processingMethodBlock (exifAsciiPrefix : List UInt8) (exif : ExifData) (st : State) : State :=
  if (st.exifTags .processingMethod).status = .readWrite ∧ exif.procMethodValid = true then
    let shared :=
      overwrite st.shared st.sharedPtr exifAsciiPrefix.length fun i => exifAsciiPrefix.getD i 0
    let sharedPtr := st.sharedPtr + exifAsciiPrefix.length
    { shared :=
        overwrite shared sharedPtr (GPS_PROCESSING_SIZE - exifAsciiPrefix.length) exif.procMethod
      exifTags := st.update .processingMethod GPS_PROCESSING_SIZE
      sharedPtr := sharedPtr + GPS_PROCESSING_SIZE }
  else st

/-- What `setupEXIF` starts from: the parameters with the data before them, the tags and the buffer
that the component leaves, the time, and the character code of the EXIF library. -/
structure Setup where
  params : Params
  exif : ExifData
  tags : Field → Tag
  shared : Nat → UInt8
  pTime : Option Tm
  exifAsciiPrefix : List UInt8

/-- The strings of `setupEXIF`, behind `setParametersEXIF`. -/
def setupEXIF (x : Setup) : Option State := do
  let exif := setParametersEXIF x.params x.exif
  let st ← modelBlock x.params exif ⟨x.shared, tagsSize, x.tags⟩
  let st ← makeBlock x.params exif st
  return processingMethodBlock x.exifAsciiPrefix exif
    (mapDatumBlock exif (dateTimeBlock x.pTime st))

/-! ## The layout -/

namespace Setup

variable (x : Setup)

def given : Field → Bool
  | .model => x.params.exifModel.isSome
  | .make => x.params.exifMake.isSome
  | .dateTime => true
  | .mapDatum => x.params.mapDatum.isSome
  | .processingMethod => x.params.processingMethod.isSome

/-- The tag is offered, and there is a string for it. -/
def filled (f : Field) : Bool := (x.tags f).status = .readWrite && x.given f

/-- The string of a tag. -/
def text : Field → Option (List UInt8)
  | .model => x.params.exifModel.map CStr.bytes
  | .make => x.params.exifMake.map CStr.bytes
  | .dateTime => x.pTime.map dateTimeText
  | .mapDatum => x.params.mapDatum.map CStr.bytes
  | .processingMethod => x.params.processingMethod.map CStr.bytes

/-- What is in front of the string in its region. -/
def lead : Field → Nat
  | .processingMethod => x.exifAsciiPrefix.length
  | _ => 0

def before : Field → List Field
  | .model => []
  | .make => [.model]
  | .dateTime => [.model, .make]
  | .mapDatum => [.model, .make, .dateTime]
  | .processingMethod => [.model, .make, .dateTime, .mapDatum]

/-- Where the regions of the fields end. -/
def frontier (fs : List Field) : Nat := tagsSize + ((fs.filter x.filled).map Field.size).sum

def start (f : Field) : Nat := x.frontier (before f)

/-- The size of a tag does not exceed the region, and there is a zero behind a prefix of the
string. -/
def Good (f : Field) (st : State) : Prop :=
  (st.exifTags f).sizeBytes ≤ f.size ∧
    Covers (fun i => st.shared ((st.exifTags f).buff + x.lead f + i))
      ((st.exifTags f).sizeBytes - x.lead f) (x.text f)

/-- The regions of the tags, and what they hold. -/
structure Right (st : State) : Prop where
  disjoint : ∀ f g, x.filled f → x.filled g → f ≠ g →
    x.start f + f.size ≤ x.start g ∨ x.start g + g.size ≤ x.start f
  inside : ∀ f, x.filled f → tagsSize ≤ x.start f ∧ x.start f + f.size ≤ bufSize
  frame : ∀ a, (∀ f, x.filled f → a < x.start f ∨ x.start f + f.size ≤ a) →
    st.shared a = x.shared a
  offset : ∀ f, x.filled f → (st.exifTags f).buff = x.start f
  good : ∀ f, x.filled f → x.Good f st

/-- The string is short enough, or the byte that no copy reaches is a zero. The text of a date is
always short enough. -/
def Terminated : Field → Prop
  | .model => ∀ s ∈ x.params.exifModel,
      s.bytes.length < EXIF_MODEL_SIZE - 1 ∨ x.shared (x.start .model + (EXIF_MODEL_SIZE - 1)) = 0
  | .make => ∀ s ∈ x.params.exifMake,
      s.bytes.length < EXIF_MAKE_SIZE - 1 ∨ x.shared (x.start .make + (EXIF_MAKE_SIZE - 1)) = 0
  | .dateTime => x.pTime.isSome ∨
      ∃ i < EXIF_DATE_TIME_SIZE, x.shared (x.start .dateTime + i) = 0
  | .mapDatum => ∀ s ∈ x.params.mapDatum,
      s.bytes.length < GPS_MAPDATUM_SIZE - 1 ∨ x.exif.mapDatum (GPS_MAPDATUM_SIZE - 1) = 0
  | .processingMethod => ∀ s ∈ x.params.processingMethod,
      s.bytes.length + x.exifAsciiPrefix.length < GPS_PROCESSING_SIZE

/-! ## Where the regions are -/

variable {x} {f g : Field} {fs : List Field} {st st' : State}

theorem frontier_filled (hf : x.filled f = true) :
    x.frontier (fs ++ [f]) = x.frontier fs + f.size := by
  simp only [frontier, List.filter_append, List.filter_cons_of_pos hf, List.filter_nil,
    List.map_append, List.map_cons, List.map_nil, List.sum_append, List.sum_singleton,
    Nat.add_assoc]

theorem frontier_not_filled (hf : ¬ x.filled f = true) :
    x.frontier (fs ++ [f]) = x.frontier fs := by
  rw [frontier, List.filter_append, List.filter_cons_of_neg hf, List.filter_nil, List.append_nil,
    frontier]

theorem frontier_le_append (fs gs : List Field) : x.frontier fs ≤ x.frontier (fs ++ gs) := by
  rw [frontier, frontier, List.filter_append, List.map_append, List.sum_append]
  omega

theorem before_split (h : g ∈ before f) : ∃ fs, before f = before g ++ [g] ++ fs := by
  cases f <;> cases g <;> simp [before] at h ⊢

theorem end_le_start (h : g ∈ before f) (hg : x.filled g = true) :
    x.start g + g.size ≤ x.start f := by
  obtain ⟨fs, hfs⟩ := before_split h
  rw [start, start, hfs, ← frontier_filled hg]
  exact frontier_le_append _ fs

theorem before_total (h : f ≠ g) : f ∈ before g ∨ g ∈ before f := by
  cases f <;> cases g <;> simp [before] at h ⊢

theorem tagsSize_le_start (f : Field) : tagsSize ≤ x.start f := Nat.le_add_right _ _

theorem frontier_le (fs : List Field) : x.frontier fs ≤ tagsSize + (fs.map Field.size).sum := by
  refine Nat.add_le_add_left ?_ tagsSize
  exact (List.filter_sublist.map Field.size).sum_le_sum fun _ _ => Nat.zero_le _

theorem end_le_bufSize (f : Field) : x.start f + f.size ≤ bufSize := by
  have hle : x.start f + f.size ≤ tagsSize + ((before f).map Field.size).sum + f.size :=
    Nat.add_le_add_right (frontier_le (before f)) f.size
  refine Nat.le_trans hle ?_
  cases f <;> decide

/-! ## The blocks -/

/-- The buffer behind the blocks of some fields. -/
structure Laid (x : Setup) (done : List Field) (st : State) : Prop where
  ptr : .processingMethod ∉ done → st.sharedPtr = x.frontier done
  todo : ∀ f ∉ done, st.exifTags f = x.tags f
  frame : ∀ a, (∀ f ∈ done, x.filled f → a < x.start f ∨ x.start f + f.size ≤ a) →
    st.shared a = x.shared a
  offset : ∀ f ∈ done, x.filled f → (st.exifTags f).buff = x.start f
  good : ∀ f ∈ done, x.filled f → (x.Good f st ↔ x.Terminated f)

/-- What a block does for its field. -/
structure Fills (f : Field) (st st' : State) : Prop where
  outside : ∀ a, a < st.sharedPtr ∨ st.sharedPtr + f.size ≤ a → st'.shared a = st.shared a
  offset : (st'.exifTags f).buff = st.sharedPtr
  others : ∀ g, g ≠ f → st'.exifTags g = st.exifTags g
  ptr : f ≠ .processingMethod → st'.sharedPtr = st.sharedPtr + f.size

theorem Laid.init (x : Setup) : Laid x [] ⟨x.shared, tagsSize, x.tags⟩ where
  ptr _ := rfl
  todo _ _ := rfl
  frame _ _ := rfl
  offset _ hf := absurd hf List.not_mem_nil
  good _ hf := absurd hf List.not_mem_nil

theorem Laid.sharedPtr (h : Laid x (before f) st) : st.sharedPtr = x.start f := by
  refine h.ptr ?_
  cases f <;> decide

theorem Laid.rest (h : Laid x (before f) st) {a : Nat} (ha : x.start f ≤ a) :
    st.shared a = x.shared a :=
  h.frame a fun _ hg hfilled => Or.inr (Nat.le_trans (end_le_start hg hfilled) ha)

theorem Laid.offered (h : Laid x (before f) st) : st.exifTags f = x.tags f := by
  refine h.todo f ?_
  cases f <;> decide

theorem Laid.skip (h : Laid x (before f) st) (hf : ¬ x.filled f = true) :
    Laid x (before f ++ [f]) st where
  ptr hnot := by
    rw [frontier_not_filled hf]
    exact h.ptr fun hmem => hnot (List.mem_append_left _ hmem)
  todo g hg := h.todo g fun hmem => hg (List.mem_append_left _ hmem)
  frame a ha := h.frame a fun g hg => ha g (List.mem_append_left _ hg)
  offset g hg hfilled := by
    rcases List.mem_append.mp hg with hg | hg
    · exact h.offset g hg hfilled
    · exact absurd (List.mem_singleton.mp hg ▸ hfilled) hf
  good g hg hfilled := by
    rcases List.mem_append.mp hg with hg | hg
    · exact h.good g hg hfilled
    · exact absurd (List.mem_singleton.mp hg ▸ hfilled) hf

theorem good_congr (htag : st'.exifTags g = st.exifTags g)
    (hsame : ∀ i < g.size, st'.shared ((st.exifTags g).buff + i) =
      st.shared ((st.exifTags g).buff + i)) : x.Good g st' ↔ x.Good g st := by
  rw [Good, Good, htag]
  refine and_congr_right fun hle => covers_congr fun i hi => ?_
  rw [Nat.add_assoc]
  exact hsame _ (by omega)

theorem Laid.fill (h : Laid x (before f) st) (hfilled : x.filled f = true)
    (hfills : Fills f st st') (hgood : x.Good f st' ↔ x.Terminated f) :
    Laid x (before f ++ [f]) st' := by
  have hnew : ∀ g ∈ before f, g ≠ f := by
    rintro g hg rfl
    cases g <;> simp [before] at hg
  constructor
  · intro hnot
    have hne : f ≠ .processingMethod := by
      rintro rfl
      exact hnot (List.mem_append_right _ (List.mem_singleton_self _))
    rw [hfills.ptr hne, h.sharedPtr, frontier_filled hfilled, start]
  · intro g hg
    rw [List.mem_append, List.mem_singleton, not_or] at hg
    rw [hfills.others g hg.2, h.todo g hg.1]
  · intro a ha
    have hout := ha f (List.mem_append_right _ (List.mem_singleton_self f)) hfilled
    rw [← h.sharedPtr] at hout
    rw [hfills.outside a hout]
    exact h.frame a fun g hg => ha g (List.mem_append_left _ hg)
  · intro g hg hg'
    rcases List.mem_append.mp hg with hg | hg
    · rw [hfills.others g (hnew g hg), h.offset g hg hg']
    · rw [List.mem_singleton.mp hg, hfills.offset, h.sharedPtr]
  · intro g hg hg'
    rcases List.mem_append.mp hg with hg | hg
    · rw [← h.good g hg hg']
      refine good_congr (hfills.others g (hnew g hg)) fun i hi => hfills.outside _ (Or.inl ?_)
      rw [h.offset g hg hg', h.sharedPtr]
      exact Nat.lt_of_lt_of_le (Nat.add_lt_add_left hi _) (end_le_start hg hg')
    · rw [List.mem_singleton.mp hg]
      exact hgood

theorem filled_iff (h : Laid x (before f) st) :
    x.filled f = true ↔ (st.exifTags f).status = .readWrite ∧ x.given f = true := by
  rw [filled, Bool.and_eq_true, decide_eq_true_eq, h.offered]

theorem update_fills {mem : Nat → UInt8} {p n : Nat} (hptr : f ≠ .processingMethod →
      p = st.sharedPtr + f.size)
    (hmem : ∀ a, a < st.sharedPtr ∨ st.sharedPtr + f.size ≤ a → mem a = st.shared a) :
    Fills f st ⟨mem, p, st.update f n⟩ where
  outside := hmem
  offset := congrArg Tag.buff (st.update_self f n)
  others _ hg := Function.update_of_ne hg ..
  ptr := hptr

theorem good_update {mem : Nat → UInt8} {p n : Nat} :
    x.Good f ⟨mem, p, st.update f n⟩ ↔
      n ≤ f.size ∧
        Covers (fun i => mem (st.sharedPtr + x.lead f + i)) (n - x.lead f) (x.text f) := by
  simp only [Good, State.update_self]

theorem stringBlock_some {valid : Bool} {s : CStr} {n : Nat}
    (h : (st.exifTags f).status = .readWrite ∧ valid = true) :
    stringBlock f (n + 1) valid (some s) st =
      (strlen (strncpy st.shared st.sharedPtr s n) bufSize st.sharedPtr).map fun len =>
        ⟨strncpy st.shared st.sharedPtr s n, st.sharedPtr + (n + 1), st.update f (len + 1)⟩ := by
  rw [stringBlock, if_pos h, Option.map_eq_bind]
  rfl

theorem Laid.string {value : Option CStr} {n : Nat} (h : Laid x (before f) st)
    (hsize : f.size = n + 1) (hlead : x.lead f = 0)
    (htext : x.text f = value.map CStr.bytes) (hgiven : x.given f = value.isSome)
    (hterm : x.Terminated f ↔
      ∀ s ∈ value, s.bytes.length < n ∨ x.shared (x.start f + n) = 0) :
    (∃ st', stringBlock f (n + 1) value.isSome value st = some st' ∧
      Laid x (before f ++ [f]) st') ∨
    stringBlock f (n + 1) value.isSome value st = none ∧ x.filled f = true ∧
      ¬ x.Terminated f := by
  have hcond := filled_iff h
  rw [hgiven] at hcond
  by_cases hfilled : x.filled f = true
  · obtain ⟨s, rfl⟩ := Option.isSome_iff_exists.mp (hcond.mp hfilled).2
    rw [stringBlock_some (hcond.mp hfilled)]
    have hcopy : ∀ i < n, strncpy st.shared st.sharedPtr s n (st.sharedPtr + i) = s.padded i :=
      fun i hi => overwrite_at hi
    have hlast : strncpy st.shared st.sharedPtr s n (st.sharedPtr + n) =
        x.shared (x.start f + n) := by
      rw [strncpy, overwrite_above (Nat.le_refl _), h.rest, h.sharedPtr]
      rw [h.sharedPtr]
      exact Nat.le_add_right _ _
    have hterm' : x.Terminated f ↔ s.bytes.length < n ∨
        strncpy st.shared st.sharedPtr s n (st.sharedPtr + n) = 0 := by
      rw [hterm, hlast]
      exact ⟨fun hs => hs s rfl, fun hs t ht => Option.some.inj ht ▸ hs⟩
    have hend := end_le_bufSize (x := x) f
    rw [hsize, ← h.sharedPtr] at hend
    cases hlen : strlen (strncpy st.shared st.sharedPtr s n) bufSize st.sharedPtr with
    | none =>
      refine Or.inr ⟨rfl, hfilled, fun hT => ?_⟩
      exact strlen_copy_ne_none hcopy (by omega) (hterm'.mp hT) hlen
    | some len =>
      refine Or.inl ⟨_, rfl, h.fill hfilled (update_fills ?_ ?_) ?_⟩
      · exact fun _ => by rw [hsize]
      · rintro a (ha | ha)
        · exact overwrite_below ha
        · exact overwrite_above (by omega)
      · rw [good_update, hlead, hsize, htext, hterm']
        exact strlen_copy hcopy hlen
  · exact Or.inl ⟨st, if_neg fun hc => hfilled (hcond.mpr hc), h.skip hfilled⟩

theorem Laid.model (h : Laid x (before .model) st) :
    (∃ st', modelBlock x.params (setParametersEXIF x.params x.exif) st = some st' ∧
      Laid x (before .make) st') ∨
    modelBlock x.params (setParametersEXIF x.params x.exif) st = none ∧
      x.filled .model = true ∧ ¬ x.Terminated .model :=
  h.string rfl rfl rfl rfl Iff.rfl

theorem Laid.make (h : Laid x (before .make) st) :
    (∃ st', makeBlock x.params (setParametersEXIF x.params x.exif) st = some st' ∧
      Laid x (before .dateTime) st') ∨
    makeBlock x.params (setParametersEXIF x.params x.exif) st = none ∧
      x.filled .make = true ∧ ¬ x.Terminated .make :=
  h.string rfl rfl rfl rfl Iff.rfl

theorem Laid.dateTime (h : Laid x (before .dateTime) st) :
    Laid x (before .mapDatum) (dateTimeBlock x.pTime st) := by
  have hcond := filled_iff h
  unfold dateTimeBlock
  by_cases hfilled : x.filled .dateTime = true
  · rw [if_pos (hcond.mp hfilled).1]
    refine h.fill hfilled (update_fills (fun _ => rfl) ?_) ?_
    · intro a ha
      cases x.pTime with
      | none => rfl
      | some t =>
        rcases ha with ha | ha
        · exact overwrite_below ha
        · refine overwrite_above (Nat.le_trans (Nat.add_le_add_left (Nat.min_le_right _ _) _) ha)
    · rw [good_update, Terminated, text]
      cases x.pTime with
      | none =>
        simp only [Option.map_none, covers_none, lead, Nat.add_zero, Nat.sub_zero,
          Option.isSome_none, Bool.false_eq_true, false_or, h.sharedPtr]
        refine (and_iff_right (Nat.le_refl _)).trans ?_
        refine exists_congr fun i => and_congr_right fun _ => ?_
        rw [h.rest (Nat.le_add_right _ _)]
      | some t =>
        refine iff_of_true ⟨Nat.le_refl _, ?_⟩ (Or.inl rfl)
        exact covers_snprintf (Nat.zero_lt_succ 19) fun i _ => rfl
  · rw [if_neg fun hc => hfilled (hcond.mpr ⟨hc, rfl⟩)]
    exact h.skip hfilled

theorem Laid.mapDatum (h : Laid x (before .mapDatum) st) :
    Laid x (before .processingMethod)
      (mapDatumBlock (setParametersEXIF x.params x.exif) st) := by
  have hcond : x.filled .mapDatum = true ↔ (st.exifTags .mapDatum).status = .readWrite ∧
      (setParametersEXIF x.params x.exif).mapDatumValid = true := filled_iff h
  unfold mapDatumBlock
  by_cases hfilled : x.filled .mapDatum = true
  · rw [if_pos (hcond.mp hfilled)]
    refine h.fill hfilled (update_fills (fun _ => rfl) ?_) ?_
    · rintro a (ha | ha)
      · exact overwrite_below ha
      · exact overwrite_above ha
    · obtain ⟨s, hs⟩ := Option.isSome_iff_exists.mp (hcond.mp hfilled).2
      have hbyte : ∀ i < GPS_MAPDATUM_SIZE,
          overwrite st.shared st.sharedPtr GPS_MAPDATUM_SIZE
            (setParametersEXIF x.params x.exif).mapDatum (st.sharedPtr + i) =
          strncpy x.exif.mapDatum 0 s (GPS_MAPDATUM_SIZE - 1) i := by
        intro i hi
        rw [overwrite_at hi, setParametersEXIF, hs]
      have hfits : GPS_MAPDATUM_SIZE ≤ Field.mapDatum.size := Nat.le_refl _
      rw [good_update, and_iff_right hfits, Terminated, text, hs]
      refine (covers_congr hbyte).trans (covers_strncpy.trans ?_)
      exact ⟨fun ht t htext => Option.some.inj htext ▸ ht, fun ht => ht s rfl⟩
  · rw [if_neg fun hc => hfilled (hcond.mpr hc)]
    exact h.skip hfilled

theorem Laid.processingMethod (hPrefix : x.exifAsciiPrefix.length = 8)
    (h : Laid x (before .processingMethod) st) :
    Laid x (before .processingMethod ++ [.processingMethod])
      (processingMethodBlock x.exifAsciiPrefix (setParametersEXIF x.params x.exif) st) := by
  have hcond : x.filled .processingMethod = true ↔
      (st.exifTags .processingMethod).status = .readWrite ∧
      (setParametersEXIF x.params x.exif).procMethodValid = true := filled_iff h
  unfold processingMethodBlock
  by_cases hfilled : x.filled .processingMethod = true
  · rw [if_pos (hcond.mp hfilled)]
    refine h.fill hfilled (update_fills (fun hne => absurd rfl hne) ?_) ?_
    · rintro a (ha | ha)
      · rw [overwrite_below (by omega), overwrite_below ha]
      · have hsize : Field.processingMethod.size = GPS_PROCESSING_SIZE := rfl
        have hfits : x.exifAsciiPrefix.length ≤ GPS_PROCESSING_SIZE := by
          rw [hPrefix]
          decide
        rw [overwrite_above (by omega), overwrite_above (by omega)]
    · obtain ⟨s, hs⟩ := Option.isSome_iff_exists.mp (hcond.mp hfilled).2
      have hbyte : ∀ i < GPS_PROCESSING_SIZE - x.exifAsciiPrefix.length,
          overwrite (overwrite st.shared st.sharedPtr x.exifAsciiPrefix.length fun i =>
              x.exifAsciiPrefix.getD i 0) (st.sharedPtr + x.exifAsciiPrefix.length)
            (GPS_PROCESSING_SIZE - x.exifAsciiPrefix.length)
            (setParametersEXIF x.params x.exif).procMethod
            (st.sharedPtr + x.exifAsciiPrefix.length + i) = s.padded i := by
        intro i hi
        rw [overwrite_at hi, setParametersEXIF, hs]
        exact strncpy_of_lt (by omega)
      have hfits : GPS_PROCESSING_SIZE ≤ Field.processingMethod.size := Nat.le_refl _
      rw [good_update, and_iff_right hfits, Terminated, text, hs]
      refine (covers_copy hbyte).trans ?_
      rw [Nat.lt_sub_iff_add_lt]
      exact ⟨fun ht t htext => Option.some.inj htext ▸ ht, fun ht => ht s rfl⟩
  · rw [if_neg fun hc => hfilled (hcond.mpr hc)]
    exact h.skip hfilled

theorem setupEXIF_laid (x : Setup) (hPrefix : x.exifAsciiPrefix.length = 8) :
    (∃ st, setupEXIF x = some st ∧
      Laid x (before .processingMethod ++ [.processingMethod]) st) ∨
    setupEXIF x = none ∧ ∃ f, x.filled f = true ∧ ¬ x.Terminated f := by
  rcases (Laid.init x).model with ⟨st₁, hrun₁, h₁⟩ | ⟨hrun₁, hbad⟩
  · rcases h₁.make with ⟨st₂, hrun₂, h₂⟩ | ⟨hrun₂, hbad⟩
    · refine Or.inl ⟨_, ?_, h₂.dateTime.mapDatum.processingMethod hPrefix⟩
      simp only [setupEXIF, hrun₁, hrun₂, Option.bind_eq_bind, Option.bind_some]
      rfl
    · refine Or.inr ⟨?_, .make, hbad⟩
      simp only [setupEXIF, hrun₁, hrun₂, Option.bind_eq_bind, Option.bind_some, Option.bind_none]
  · refine Or.inr ⟨?_, .model, hbad⟩
    simp only [setupEXIF, hrun₁, Option.bind_eq_bind, Option.bind_none]

theorem mem_fields (f : Field) : f ∈ before .processingMethod ++ [.processingMethod] := by
  cases f <;> decide

theorem Laid.right_iff (h : Laid x (before .processingMethod ++ [.processingMethod]) st) :
    x.Right st ↔ ∀ f, x.filled f → x.Terminated f := by
  constructor
  · intro hright f hf
    exact (h.good f (mem_fields f) hf).mp (hright.good f hf)
  · intro hterm
    constructor
    · intro f g hf hg hne
      rcases before_total hne with hmem | hmem
      · exact Or.inl (end_le_start hmem hf)
      · exact Or.inr (end_le_start hmem hg)
    · exact fun f _ => ⟨tagsSize_le_start f, end_le_bufSize f⟩
    · exact fun a ha => h.frame a fun f _ => ha f
    · exact fun f => h.offset f (mem_fields f)
    · exact fun f hf => (h.good f (mem_fields f) hf).mpr (hterm f hf)

end Setup

/-- The strings are laid out in the buffer as they should be if and only if each one is short enough
or has a zero behind it by chance. The character code has eight bytes. -/
theorem layout_iff (x : Setup) (hPrefix : x.exifAsciiPrefix.length = 8) :
    (∃ st, setupEXIF x = some st ∧ x.Right st) ↔ ∀ f, x.filled f → x.Terminated f := by
  rcases x.setupEXIF_laid hPrefix with ⟨st, hrun, hlaid⟩ | ⟨hrun, f, hf, hbad⟩
  · rw [← hlaid.right_iff]
    constructor
    · rintro ⟨st', hrun', hright⟩
      rw [hrun] at hrun'
      exact Option.some.inj hrun' ▸ hright
    · exact fun hright => ⟨st, hrun, hright⟩
  · refine iff_of_false ?_ fun hterm => hbad (hterm f hf)
    rintro ⟨st, hrun', -⟩
    rw [hrun] at hrun'
    cases hrun'

/-- Only the processing method is given, in a buffer of zeros. -/
def methodOnly (method : CStr) : Setup where
  params := ⟨none, none, none, some method⟩
  exif := ⟨false, false, fun _ => 0, false, fun _ => 0, false⟩
  tags _ := ⟨.readWrite, 0, 0⟩
  shared _ := 0
  pTime := none
  exifAsciiPrefix := [65, 83, 67, 73, 73, 0, 0, 0]

def letters (n : Nat) : CStr := ⟨List.replicate n 65, by simp⟩

theorem layout_short : ∃ st, setupEXIF (methodOnly (letters 91)) = some st ∧
    (methodOnly (letters 91)).Right st := by
  refine (layout_iff (methodOnly (letters 91)) rfl).mpr fun f hf => ?_
  cases f with
  | model => exact absurd hf (by decide)
  | make => exact absurd hf (by decide)
  | dateTime => exact Or.inr ⟨0, by decide, rfl⟩
  | mapDatum => exact absurd hf (by decide)
  | processingMethod =>
    rintro s ⟨⟩
    decide

/-- A processing method of 92 letters has no zero behind it in its region. -/
theorem long_method_not_terminated :
    ¬ ∃ st, setupEXIF (methodOnly (letters 92)) = some st ∧ (methodOnly (letters 92)).Right st := by
  rintro ⟨st, hrun, hright⟩
  rcases (methodOnly (letters 92)).setupEXIF_laid rfl with ⟨st', hrun', hlaid⟩ | ⟨hrun', -⟩
  · rw [hrun] at hrun'
    cases hrun'
    exact absurd (hlaid.right_iff.mp hright .processingMethod rfl (letters 92) rfl) (by decide)
  · rw [hrun] at hrun'
    cases hrun'

end Omap4Hal.Camera.ExifBuffer

import Mathlib.Algebra.Group.Nat.Defs
import Omap4Hal.Lib.ByteWords
import Omap4Hal.Lib.Following

/- The extra data of a buffer from the camera component: `getExtradata`
   (camera/OMXCameraAdapter/OMXCameraAdapter.cpp) follows the sizes of the records until one ends
   the list or has the type that is looked for, and `sniffDccFileDataSave` (OMXDccDataSave.cpp)
   copies the data of a DCC record. Neither compares a size with that of the buffer, so both are
   safe only for sound lists (`extraData_safe_iff`); a record without a size is never left.

   Pointers are words relative to the start of the metadata buffer. The type of DCC records and the
   place of `pData` in them are not in the headers of this repository; they are arguments. -/
namespace Omap4Hal.Camera.ExtraData

open Lib

/-! ## The search -/

structure PlatformPrivate where
  nSize : UInt32
  pMetaDataBuffer : Option (Nat → UInt8)
  nMetaDataSize : UInt32

def sizeofPlatformPrivate : UInt32 := 32

section Search

variable (mem : Nat → UInt8) (size type : UInt32)

/-! `OMX_OTHER_EXTRADATATYPE` -/

def nSize (p : UInt32) : UInt32 := wordAt mem p.toNat

def eType (p : UInt32) : UInt32 := wordAt mem (p + 12).toNat

def nDataSize (p : UInt32) : UInt32 := wordAt mem (p + 16).toNat

/-- `data` -/
def dataOffset : UInt32 := 20

/-- A word lies inside the buffer. -/
def Inside (p : UInt32) : Prop := p.toNat + 4 ≤ size.toNat

instance (p : UInt32) : Decidable (Inside size p) := inferInstanceAs (Decidable (_ ≤ _))

/-- What the conditions of the loop say about a record. The address of `data` is never zero. -/
inductive Look where
  | outside | ended | matching | other
  deriving DecidableEq

def look (p : UInt32) : Look :=
  if ¬ Inside size (p + 12) then .outside
  else if eType mem p = 0 then .ended
  else if ¬ Inside size (p + 16) then .outside
  else if nDataSize mem p = 0 then .ended
  else if type = eType mem p then .matching
  else if ¬ Inside size p then .outside
  else .other

def link (p : UInt32) : UInt32 := p + nSize mem p

/-- The record of the search, `NULL`, or a read outside the buffer. -/
inductive Outcome where
  | found (p : UInt32)
  | absent
  | outside

def outcome (p : UInt32) : Outcome :=
  match look mem size type p with
  | .matching => .found p
  | .outside => .outside
  | _ => .absent

/-- `OMXCameraAdapter::getExtradata`, with a number of passes. -/
def getExtradata (extraData : Option (Nat → UInt8)) (passes : Nat) : Option Outcome :=
  match extraData with
  | none => some .absent
  | some mem =>
    (loop (follow (fun p => look mem size type p ≠ .other) (link mem)) passes 0).map
      (outcome mem size type)

end Search

/-- Who searches, and for what. -/
inductive Purpose where
  | faceDetection | ancillary | dcc

def OMX_AncillaryData : UInt32 := 0x7F000002
def OMX_FaceDetection : UInt32 := 0x7F000005

def Purpose.type (dccType : UInt32) : Purpose → UInt32
  | .faceDetection => OMX_FaceDetection
  | .ancillary => OMX_AncillaryData
  | .dcc => dccType

/-- The guards of `detectFaces` and `sniffDccFileDataSave`; the ancillary data have none. -/
def searches (pp : PlatformPrivate) : Purpose → Bool
  | .ancillary => true
  | _ => pp.nSize = sizeofPlatformPrivate && 0 < pp.nMetaDataSize

/-- The copy of the data behind the header of a DCC record. -/
structure DccCopy where
  record : UInt32
  dccDataSize : Int32

def dccDataSize (mem : Nat → UInt8) (pDataOffset p : UInt32) : Int32 :=
  (nSize mem (p + dataOffset)).toInt32 - pDataOffset.toInt32

/-- `OMXCameraAdapter::sniffDccFileDataSave`: the copy, if one is made. -/
def sniffDccFileDataSave (dccType pDataOffset : UInt32) (malloc : Int32 → Bool)
    (pp : PlatformPrivate) (passes : Nat) : Option (Option DccCopy) :=
  if searches pp .dcc then
    match pp.pMetaDataBuffer with
    | none => some none
    | some mem =>
      (getExtradata pp.nMetaDataSize dccType (some mem) passes).map fun
        | .found p =>
          if malloc (dccDataSize mem pDataOffset p) then
            some ⟨p, dccDataSize mem pDataOffset p⟩
          else none
        | _ => none
  else some none

/-! ## What is asked of them -/

section Sound

variable (mem : Nat → UInt8) (size type : UInt32)

/-- The records, in the order in which they are linked. -/
def place (k : Nat) : UInt32 := (link mem)^[k] 0

/-- The records before the `k`-th one neither end the search nor have the type. -/
def Goes (k : Nat) : Prop := ∀ j < k, look mem size type (place mem j) = .other

/-- The data of a record lie inside the record, and the record inside the buffer. -/
def WellFormed (p : UInt32) : Prop :=
  dataOffset.toNat + (nDataSize mem p).toNat ≤ (nSize mem p).toNat ∧
    p.toNat + (nSize mem p).toNat ≤ size.toNat

instance (p : UInt32) : Decidable (WellFormed mem size p) := inferInstanceAs (Decidable (_ ∧ _))

/-- The first record of the type, which is well formed, or `NULL` at the end of the list. -/
def Right : Outcome → Prop
  | .found p => ∃ k, Goes mem size type k ∧ place mem k = p ∧ look mem size type p = .matching ∧
      WellFormed mem size p
  | .absent => ∃ k, Goes mem size type k ∧ look mem size type (place mem k) = .ended
  | .outside => False

/-- The search ends, has not left the buffer, and its result is right. -/
def SearchSafe : Prop :=
  ∃ passes o, getExtradata size type (some mem) passes = some o ∧ Right mem size type o

/-- The records that are reached have their header inside the buffer, none is reached twice, and the
one of the type is well formed. -/
structure Sound : Prop where
  inside : ∀ k, Goes mem size type k → look mem size type (place mem k) ≠ .outside
  acyclic : ∀ i k, i < k → Goes mem size type k → place mem i ≠ place mem k
  formed : ∀ k, Goes mem size type k → look mem size type (place mem k) = .matching →
    WellFormed mem size (place mem k)

/-- The copy has a length, and lies inside the data of the record. -/
def DccCopy.Fits (pDataOffset : UInt32) (c : DccCopy) : Prop :=
  0 ≤ c.dccDataSize.toInt ∧
    pDataOffset.toNat + c.dccDataSize.toInt ≤ (nDataSize mem c.record).toNat

/-- The size of a DCC record is not less than its header and not more than the record. -/
def DccSound (pDataOffset p : UInt32) : Prop :=
  pDataOffset ≤ nSize mem (p + dataOffset) ∧
    (nSize mem (p + dataOffset)).toNat < pDataOffset.toNat + 2 ^ 31 ∧
    nSize mem (p + dataOffset) ≤ nDataSize mem p

instance (pDataOffset p : UInt32) : Decidable (DccSound mem pDataOffset p) :=
  inferInstanceAs (Decidable (_ ∧ _))

end Sound

/-! ## Results -/

variable {mem : Nat → UInt8} {size type : UInt32} {k : Nat}

theorem goes_iff : Goes mem size type k ↔
    Passes (fun p => look mem size type p ≠ .other) (link mem) 0 k :=
  forall₂_congr fun _ _ => not_not.symm

instance finite_uInt32 : Finite UInt32 :=
  .of_injective UInt32.toFin fun _ _ h => UInt32.toFin_inj.mp h

theorem getExtradata_eq_some {passes : Nat} {o : Outcome} :
    getExtradata size type (some mem) passes = some o ↔
      ∃ k < passes, Goes mem size type k ∧ look mem size type (place mem k) ≠ .other ∧
        outcome mem size type (place mem k) = o := by
  rw [getExtradata, Option.map_eq_some_iff]
  constructor
  · rintro ⟨p, hloop, ho⟩
    obtain ⟨k, hk, hpass, rfl, hstop⟩ := loop_follow_iff.mp hloop
    exact ⟨k, hk, goes_iff.mpr hpass, hstop, ho⟩
  · rintro ⟨k, hk, hgoes, hstop, ho⟩
    exact ⟨place mem k, loop_follow_iff.mpr ⟨k, hk, goes_iff.mp hgoes, rfl, hstop⟩, ho⟩

theorem ends_iff : (∃ k, Goes mem size type k ∧ look mem size type (place mem k) ≠ .other) ↔
    ∀ i k, i < k → Goes mem size type k → place mem i ≠ place mem k := by
  simp only [goes_iff]
  exact follow_ends_iff

theorem goes_unique {i : Nat} (hi : Goes mem size type i) (hk : Goes mem size type k)
    (hi' : look mem size type (place mem i) ≠ .other)
    (hk' : look mem size type (place mem k) ≠ .other) : i = k := by
  rcases Nat.lt_trichotomy i k with hlt | rfl | hlt
  · exact absurd (hk i hlt) hi'
  · rfl
  · exact absurd (hi k hlt) hk'

theorem sound_of_stop (hgoes : Goes mem size type k)
    (h : look mem size type (place mem k) = .ended ∨
      look mem size type (place mem k) = .matching ∧ WellFormed mem size (place mem k)) :
    Sound mem size type := by
  have hstop : look mem size type (place mem k) ≠ .other := by
    rcases h with h | ⟨h, -⟩ <;> rw [h] <;> decide
  refine ⟨?_, ends_iff.mp ⟨k, hgoes, hstop⟩, ?_⟩
  · intro i hi hout
    obtain rfl := goes_unique hi hgoes (by rw [hout]; decide) hstop
    rw [hout] at h
    simp at h
  · intro i hi hmatch
    obtain rfl := goes_unique hi hgoes (by rw [hmatch]; decide) hstop
    rw [hmatch] at h
    simpa using h

theorem searchSafe_iff : SearchSafe mem size type ↔ Sound mem size type := by
  constructor
  · rintro ⟨passes, o, hrun, hright⟩
    obtain ⟨k, -, hgoes, hstop, rfl⟩ := getExtradata_eq_some.mp hrun
    refine ⟨fun i hi hout => ?_, ends_iff.mp ⟨k, hgoes, hstop⟩, fun i hi hmatch => ?_⟩
    · obtain rfl := goes_unique hi hgoes (by rw [hout]; decide) hstop
      rw [outcome, hout] at hright
      exact hright
    · obtain rfl := goes_unique hi hgoes (by rw [hmatch]; decide) hstop
      rw [outcome, hmatch] at hright
      obtain ⟨-, -, -, -, hformed⟩ := hright
      exact hformed
  · intro h
    obtain ⟨k, hgoes, hstop⟩ := ends_iff.mpr h.acyclic
    refine ⟨k + 1, _, getExtradata_eq_some.mpr ⟨k, Nat.lt_succ_self k, hgoes, hstop, rfl⟩, ?_⟩
    rw [outcome]
    split
    next hmatch => exact ⟨k, hgoes, rfl, hmatch, h.formed k hgoes hmatch⟩
    next hout => exact h.inside k hgoes hout
    next hno hin =>
      refine ⟨k, hgoes, ?_⟩
      cases hlook : look mem size type (place mem k) with
      | outside => exact absurd hlook hin
      | ended => rfl
      | matching => exact absurd hlook hno
      | other => exact absurd hlook hstop

theorem fits_iff {pDataOffset p : UInt32} (hOffset : pDataOffset.toNat < 2 ^ 31) :
    (DccCopy.mk p (dccDataSize mem pDataOffset p)).Fits mem pDataOffset ↔
      DccSound mem pDataOffset p := by
  have hsize := (nSize mem (p + dataOffset)).toNat_lt
  have htoInt (v : UInt32) : v.toInt32.toInt = (v.toNat : Int).bmod (2 ^ 32) :=
    BitVec.toInt_eq_toNat_bmod v.toBitVec
  have hlength : (dccDataSize mem pDataOffset p).toInt =
      (((nSize mem (p + dataOffset)).toNat : Int) - pDataOffset.toNat).bmod (2 ^ 32) := by
    rw [dccDataSize, Int32.toInt_sub, htoInt, htoInt, Int.bmod_sub_bmod, Int.sub_bmod_bmod]
  simp only [DccCopy.Fits, DccSound, UInt32.le_iff_toNat_le, hlength, Int.bmod_def]
  split <;> omega

theorem sniff_copies_iff {dccType pDataOffset : UInt32} {malloc : Int32 → Bool}
    {pp : PlatformPrivate} (hmem : pp.pMetaDataBuffer = some mem) {c : DccCopy} :
    (∃ passes, sniffDccFileDataSave dccType pDataOffset malloc pp passes = some (some c)) ↔
      searches pp .dcc = true ∧ ∃ k, Goes mem pp.nMetaDataSize dccType k ∧
        look mem pp.nMetaDataSize dccType (place mem k) = .matching ∧
        malloc (dccDataSize mem pDataOffset (place mem k)) = true ∧
        ⟨place mem k, dccDataSize mem pDataOffset (place mem k)⟩ = c := by
  constructor
  · rintro ⟨passes, hrun⟩
    rw [sniffDccFileDataSave] at hrun
    by_cases hsearch : searches pp .dcc = true
    · rw [if_pos hsearch, hmem] at hrun
      obtain ⟨o, hget, ho⟩ := Option.map_eq_some_iff.mp hrun
      obtain ⟨k, -, hgoes, -, rfl⟩ := getExtradata_eq_some.mp hget
      refine ⟨hsearch, k, hgoes, ?_⟩
      rw [outcome] at ho
      cases hlook : look mem pp.nMetaDataSize dccType (place mem k) with
      | matching =>
        simp only [hlook] at ho
        by_cases hmalloc : malloc (dccDataSize mem pDataOffset (place mem k)) = true
        · rw [if_pos hmalloc, Option.some.injEq] at ho
          exact ⟨rfl, hmalloc, ho⟩
        · rw [if_neg hmalloc] at ho
          cases ho
      | outside => simp [hlook] at ho
      | ended => simp [hlook] at ho
      | other => simp [hlook] at ho
    · rw [if_neg hsearch] at hrun
      cases hrun
  · rintro ⟨hsearch, k, hgoes, hmatch, hmalloc, rfl⟩
    have hstop : look mem pp.nMetaDataSize dccType (place mem k) ≠ .other := by
      rw [hmatch]
      decide
    have hfound : outcome mem pp.nMetaDataSize dccType (place mem k) = .found (place mem k) := by
      rw [outcome, hmatch]
    have hrun : getExtradata pp.nMetaDataSize dccType (some mem) (k + 1) =
        some (.found (place mem k)) :=
      getExtradata_eq_some.mpr ⟨k, Nat.lt_succ_self k, hgoes, hstop, hfound⟩
    refine ⟨k + 1, ?_⟩
    rw [sniffDccFileDataSave, if_pos hsearch, hmem]
    simp only [hrun, Option.map_some, if_pos hmalloc]

/-- The ancillary data, a DCC record with 8 bytes behind a header of 32 bytes, and the end. -/
def threeRecords : Nat → UInt8 :=
  bytesOfList ([24, 0, 0, 0, 0, 0, 0, 0, 0, 0, 0, 0, 2, 0, 0, 0x7F, 4, 0, 0, 0, 1, 2, 3, 4] ++
    [60, 0, 0, 0, 0, 0, 0, 0, 0, 0, 0, 0, 0x18, 0, 0, 0x7F, 40, 0, 0, 0, 40, 0, 0, 0] ++
    List.replicate 36 7)

/-- A list whose first record has no size. -/
def zeroSize : Nat → UInt8 :=
  bytesOfList [0, 0, 0, 0, 0, 0, 0, 0, 0, 0, 0, 0, 1, 0, 0, 0, 4, 0, 0, 0, 0, 0, 0, 0]

end Omap4Hal.Camera.ExtraData

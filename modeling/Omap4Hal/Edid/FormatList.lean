import Omap4Hal.Edid.Parser

/- What the parser makes of the masks of a 3D section and of the list behind them.

   The list is read twice, first for the formats it names (`setS3dFormatBits`) and then for its
   entries (`s3dList`). What the first reading needs is that the list ends with an entry
   (`listEntries`); the second also reads every byte of it. `Update` says all that entering a
   position can do. The indices into `vic_info` stay below 16 whatever the list is: a position has
   four bits, and one that is there is not entered again (`FewPositions`). -/
namespace Omap4Hal.Edid

open Lib Lib.Watched
open List (length_append length_map length_singleton map_append range)
open FormatInfo

/-! ## The bytes -/

variable {off n vicPos : Nat} {es : List Entry} {f : FormatInfo}

@[simp] theorem safely_readByte {edidData : Memory} {b : Byte} :
    Safely (readByte edidData off) b ↔ off < edidSize ∧ edidData off = b := by
  simp only [readByte, safely_bind, safely_watch, safely_pure, exists_const]

theorem safely_add8 {x y : Nat} : Safely (add8 x n) y ↔ x + n < 256 ∧ x + n = y := by
  simp only [add8, safely_bind, safely_watch, safely_pure, exists_const]
  apply and_congr_right
  intro h
  rw [Nat.mod_eq_of_lt h]

theorem safely_sub8 {x y : Nat} (hx : x < 256) : Safely (sub8 x n) y ↔ n ≤ x ∧ x - n = y := by
  simp only [sub8, safely_bind, safely_watch, safely_pure, exists_const]
  apply and_congr_right
  intro h
  have hmod : (x + 256 - n) % 256 = x - n := by omega
  rw [hmod]

theorem blockLength_lt (b : Byte) : blockLength b < 32 := by
  have hle : blockLength b ≤ 31 := by
    rw [blockLength, BitVec.toNat_and]
    exact Nat.and_le_right
  omega

theorem hdmi3dLen_lt (b : Byte) : hdmi3dLen b < 32 := blockLength_lt b

theorem entryVicPos_lt (b : Byte) : entryVicPos b < 16 := by
  rw [entryVicPos, BitVec.toNat_ushiftRight, Nat.shiftRight_eq_div_pow]
  have hlt := (b &&& 0xF0#8).isLt
  omega

variable {edidData : Memory}

/-! ## The list behind the masks -/

/-- An entry of the list behind the masks. -/
structure Entry where
  vicPos : Nat
  format : Nat
  deriving DecidableEq, Repr

def Entry.ofByte (val : Byte) : Entry := { vicPos := entryVicPos val, format := entryFormat val }

/-- The entries of a list. One for HDMI_SIDE_BY_SIDE_HALF and above takes two bytes; there are
none if the last is cut. -/
def listEntries : List Byte → Option (List Entry)
  | [] => some []
  | [val] => if hdmiSideBySideHalf ≤ entryFormat val then none else some [.ofByte val]
  | val :: detail :: l =>
    if hdmiSideBySideHalf ≤ entryFormat val then
      (listEntries l).map (Entry.ofByte val :: ·)
    else
      (listEntries (detail :: l)).map (Entry.ofByte val :: ·)

def bytesFrom (edidData : Memory) (off : Nat) : Nat → List Byte
  | 0 => []
  | n + 1 => edidData off :: bytesFrom edidData (off + 1) n

def formatBits (es : List Entry) (structBits : Nat) : Nat :=
  es.foldl (fun bits e => bits ||| 1 <<< e.format) structBits

@[simp] theorem formatBits_nil (structBits : Nat) : formatBits [] structBits = structBits := rfl

@[simp] theorem formatBits_cons (e : Entry) (es : List Entry) (structBits : Nat) :
    formatBits (e :: es) structBits = formatBits es (structBits ||| 1 <<< e.format) := rfl

@[simp] theorem listEntries_nil : listEntries [] = some [] := rfl

theorem listEntries_short {val : Byte} (h : entryFormat val < hdmiSideBySideHalf) (l : List Byte) :
    listEntries (val :: l) = (listEntries l).map (Entry.ofByte val :: ·) := by
  cases l with
  | nil => rw [listEntries_nil, Option.map_some, listEntries, if_neg (Nat.not_le.mpr h)]
  | cons detail l => rw [listEntries, if_neg (Nat.not_le.mpr h)]

theorem listEntries_long {val : Byte} (h : hdmiSideBySideHalf ≤ entryFormat val) (detail : Byte)
    (l : List Byte) :
    listEntries (val :: detail :: l) = (listEntries l).map (Entry.ofByte val :: ·) := by
  rw [listEntries, if_pos h]

theorem listEntries_cut {val : Byte} (h : hdmiSideBySideHalf ≤ entryFormat val) :
    listEntries [val] = none := by
  rw [listEntries, if_pos h]

theorem listEntries_induct {P : Nat → Nat → List Entry → Prop} (hnil : ∀ off, P off 0 [])
    (hshort : ∀ off n es, entryFormat (edidData off) < hdmiSideBySideHalf → P (off + 1) n es →
      P off (n + 1) (.ofByte (edidData off) :: es))
    (hlong : ∀ off n es, hdmiSideBySideHalf ≤ entryFormat (edidData off) → P (off + 2) n es →
      P off (n + 2) (.ofByte (edidData off) :: es))
    (h : listEntries (bytesFrom edidData off n) = some es) :
    P off n es := by
  induction n using Nat.strongRecOn generalizing off es with
  | ind n ih =>
    match n with
    | 0 =>
      cases h
      exact hnil off
    | n + 1 =>
      by_cases hformat : hdmiSideBySideHalf ≤ entryFormat (edidData off)
      · match n with
        | 0 =>
          rw [bytesFrom, bytesFrom, listEntries_cut hformat] at h
          cases h
        | n + 1 =>
          rw [bytesFrom, bytesFrom, listEntries_long hformat] at h
          obtain ⟨es', hes, rfl⟩ := Option.map_eq_some_iff.mp h
          exact hlong off n es' hformat (ih n (by omega) hes)
      · rw [bytesFrom, listEntries_short (Nat.not_le.mp hformat)] at h
        obtain ⟨es', hes, rfl⟩ := Option.map_eq_some_iff.mp h
        exact hshort off n es' (Nat.not_le.mp hformat) (ih n (by omega) hes)

theorem setS3dFormatBits_whole {bits bits' : Nat}
    (h : Safely (setS3dFormatBits edidData off n bits) bits') :
    ∃ es, listEntries (bytesFrom edidData off n) = some es := by
  induction n using Nat.strongRecOn generalizing off bits with
  | ind n ih =>
    match n with
    | 0 => exact ⟨[], rfl⟩
    | n + 1 =>
      rw [setS3dFormatBits, dif_pos n.succ_pos] at h
      obtain ⟨b, hb, h⟩ := safely_bind.mp h
      obtain ⟨-, rfl⟩ := safely_readByte.mp hb
      split at h
      next hformat =>
        obtain ⟨_, hw, h⟩ := safely_bind.mp h
        have hlen := safely_watch.mp hw
        match n with
        | 0 => omega
        | n + 1 =>
          obtain ⟨es, hes⟩ := ih n (by omega) h
          refine ⟨.ofByte (edidData off) :: es, ?_⟩
          rw [bytesFrom, bytesFrom, listEntries_long hformat, hes, Option.map_some]
      next hformat =>
        obtain ⟨es, hes⟩ := ih n (by omega) h
        refine ⟨.ofByte (edidData off) :: es, ?_⟩
        rw [bytesFrom, listEntries_short (Nat.not_le.mp hformat), hes, Option.map_some]

theorem setS3dFormatBits_safe (h : listEntries (bytesFrom edidData off n) = some es) :
    (∀ k < n, off + k < edidSize) → ∀ bits,
      Safely (setS3dFormatBits edidData off n bits) (formatBits es bits) := by
  refine listEntries_induct (P := fun off n es => (∀ k < n, off + k < edidSize) → ∀ bits,
    Safely (setS3dFormatBits edidData off n bits) (formatBits es bits)) ?_ ?_ ?_ h
  · intro off _ bits
    rw [setS3dFormatBits, dif_neg (Nat.lt_irrefl 0), safely_pure, formatBits_nil]
  · intro off n es hformat ih hin bits
    rw [setS3dFormatBits, dif_pos n.succ_pos]
    refine safely_bind.mpr ⟨_, safely_readByte.mpr ⟨hin 0 n.succ_pos, rfl⟩, ?_⟩
    rw [if_neg (Nat.not_le.mpr hformat)]
    exact ih (fun k hk => by have hlt := hin (k + 1) (by omega); omega) _
  · intro off n es hformat ih hin bits
    rw [setS3dFormatBits, dif_pos (Nat.succ_pos _)]
    refine safely_bind.mpr ⟨_, safely_readByte.mpr ⟨hin 0 (Nat.succ_pos _), rfl⟩, ?_⟩
    rw [if_pos hformat]
    refine safely_bind.mpr ⟨(), safely_watch.mpr (by omega), ?_⟩
    exact ih (fun k hk => by have hlt := hin (k + 2) (by omega); omega) _

/-! ## The formats -/

/-- An entry for a format, without positions. -/
def FormatInfo.ofFormat (format : Nat) : FormatInfo := { format := format, vicInfo := [] }

/-- The known formats are entered, the others are what memory held. -/
def enteredFormats (held known : List Nat) : List FormatInfo :=
  (known ++ held.drop known.length).map .ofFormat

/-- The list before the positions: the formats up to HDMI_SIDE_BY_SIDE_HALF, and what memory held
for every other bit. -/
def initialFormats (fresh : Nat → Nat) (structBits : Nat) : List FormatInfo :=
  enteredFormats ((range (countBits structBits)).map fresh)
    (bitsBelow (hdmiSideBySideHalf + 1) structBits)

theorem modify_append_cons {α : Type} (l : List α) (a : α) (l' : List α) (f : α → α) :
    (l ++ a :: l').modify l.length f = l ++ f a :: l' := by
  induction l with
  | nil => rfl
  | cons b l ih =>
    rw [List.cons_append, List.length_cons, List.modify_succ_cons, ih, List.cons_append]

theorem fillFormat_safe {structBits i : Nat} {held known : List Nat}
    (hbit : structBits.testBit i = true) (hlen : known.length < held.length) :
    Safely (fillFormat structBits (known.length, enteredFormats held known) i)
      ((known ++ [i]).length, enteredFormats held (known ++ [i])) := by
  have hlist : (enteredFormats held known).length = held.length := by
    simp only [enteredFormats, length_map, length_append, List.length_drop]
    omega
  have hsplit : enteredFormats held known = known.map .ofFormat ++
      .ofFormat held[known.length] :: (held.drop (known.length + 1)).map .ofFormat := by
    rw [enteredFormats, map_append, List.drop_eq_getElem_cons hlen, List.map_cons]
  have hmodify : ((enteredFormats held known).modify known.length fun f => { f with format := i }) =
      enteredFormats held (known ++ [i]) := by
    have hat := modify_append_cons (known.map ofFormat)
      (ofFormat held[known.length])
      ((held.drop (known.length + 1)).map ofFormat) fun f => { f with format := i }
    rw [length_map] at hat
    rw [hsplit, hat, enteredFormats, length_append, length_singleton, map_append,
      map_append, List.append_assoc]
    rfl
  rw [fillFormat, if_pos hbit]
  refine safely_bind.mpr ⟨(), safely_watch.mpr (hlist ▸ hlen), safely_pure.mpr ?_⟩
  rw [← hmodify, length_append, length_singleton]

theorem fillFormats_safe {structBits : Nat} {held : List Nat} (l : List Nat) {known : List Nat}
    (hlen : (known ++ l.filter fun i => structBits.testBit i).length ≤ held.length) :
    Safely (l.foldlM (fillFormat structBits) (known.length, enteredFormats held known))
      ((known ++ l.filter fun i => structBits.testBit i).length,
        enteredFormats held (known ++ l.filter fun i => structBits.testBit i)) := by
  induction l generalizing known with
  | nil => rw [List.foldlM_nil, safely_pure, List.filter_nil, List.append_nil]
  | cons i l ih =>
    rw [List.foldlM_cons, safely_bind]
    by_cases hbit : structBits.testBit i = true
    · have happ : known ++ (i :: l).filter (fun i => structBits.testBit i) =
          known ++ [i] ++ l.filter fun i => structBits.testBit i := by
        rw [List.filter_cons_of_pos hbit, List.append_assoc, List.singleton_append]
      rw [happ] at hlen ⊢
      refine ⟨_, fillFormat_safe hbit ?_, ih hlen⟩
      simp only [length_append, length_singleton] at hlen
      omega
    · rw [List.filter_cons_of_neg hbit] at hlen ⊢
      refine ⟨_, ?_, ih hlen⟩
      rw [fillFormat, if_neg hbit, safely_pure]

theorem s3dFormats_safe (fresh : Nat → Nat) (structBits : Nat) :
    Safely (s3dFormats fresh structBits) (initialFormats fresh structBits) := by
  have hlen := length_bitsBelow_le (hdmiSideBySideHalf + 1) structBits
  have hfill := @fillFormats_safe structBits ((range (countBits structBits)).map fresh)
    (range (hdmiSideBySideHalf + 1)) [] (by simpa [bitsBelow] using hlen)
  have hblank : ((range (countBits structBits)).map fun k =>
      ({ format := fresh k, vicInfo := [] } : FormatInfo)) =
      enteredFormats ((range (countBits structBits)).map fresh) [] := by
    simp [enteredFormats, ofFormat]
  rw [s3dFormats, hblank]
  exact safely_bind.mpr ⟨_, hfill, safely_pure.mpr rfl⟩

/-! ## The positions of the mask -/

/-- `fillVicInfo`, as a function. -/
def maskInfo (structAll vicPosBits : Nat) (f : FormatInfo) : FormatInfo :=
  { f with
    vicInfo := (maskPositions structAll vicPosBits f.format).map fun j =>
      { vicPos := j, subsampling := maskSubsampling structAll f.format } }

theorem mem_maskPositions {structAll vicPosBits format j : Nat} :
    j ∈ maskPositions structAll vicPosBits format ↔
      structAll.testBit format = true ∧ j < 16 ∧ vicPosBits.testBit j = true := by
  rw [maskPositions]
  split
  next h => rw [mem_bitsBelow, and_iff_right h]
  next h => simp [h]

theorem nodup_maskPositions (structAll vicPosBits format : Nat) :
    (maskPositions structAll vicPosBits format).Nodup := by
  rw [maskPositions]
  split
  · exact nodup_bitsBelow 16 vicPosBits
  · exact List.nodup_nil

theorem length_le_of_nodup {l : List Nat} (hnodup : l.Nodup) (hlt : ∀ j ∈ l, j < 16) :
    l.length ≤ 16 := by
  have hsub : l.Subperm (range 16) :=
    List.subperm_of_subset hnodup fun j hj => List.mem_range.mpr (hlt j hj)
  have hle := hsub.length_le
  rwa [List.length_range] at hle

theorem fillVicInfo_safe (structAll vicPosBits : Nat) (f : FormatInfo) :
    Safely (fillVicInfo structAll vicPosBits f) (maskInfo structAll vicPosBits f) := by
  have hle := length_le_of_nodup (nodup_maskPositions structAll vicPosBits f.format)
    fun j hj => (mem_maskPositions.mp hj).2.1
  exact safely_bind.mpr ⟨(), safely_watch.mpr hle, safely_pure.mpr rfl⟩

theorem fillVicInfos_safe (structAll vicPosBits : Nat) (l : List FormatInfo) :
    Safely (l.mapM (fillVicInfo structAll vicPosBits)) (l.map (maskInfo structAll vicPosBits)) := by
  rw [safely_mapM, List.forall₂_map_right_iff, List.forall₂_same]
  intro f _
  exact fillVicInfo_safe structAll vicPosBits f

/-! ## One more position -/

def FormatInfo.positions (f : FormatInfo) : List Nat := f.vicInfo.map VicInfo.vicPos

/-- An entry has at most one place for each position of four bits. -/
structure FewPositions (f : FormatInfo) : Prop where
  nodup : f.positions.Nodup
  lt : ∀ j ∈ f.positions, j < 16

@[simp] theorem positions_maskInfo (structAll vicPosBits : Nat) (f : FormatInfo) :
    (maskInfo structAll vicPosBits f).positions = maskPositions structAll vicPosBits f.format := by
  simp [maskInfo, FormatInfo.positions, Function.comp_def]

theorem fewPositions_maskInfo (structAll vicPosBits : Nat) (f : FormatInfo) :
    FewPositions (maskInfo structAll vicPosBits f) where
  nodup := by
    rw [positions_maskInfo]
    exact nodup_maskPositions structAll vicPosBits f.format
  lt := by
    intro j hj
    rw [positions_maskInfo] at hj
    exact (mem_maskPositions.mp hj).2.1

/-- The index of a position in an entry, the first free one if it is not there. -/
def FormatInfo.vicPosIx (f : FormatInfo) (vicPos : Nat) : Nat :=
  f.vicInfo.findIdx fun v => v.vicPos == vicPos

/-- An entry with the position `vicPos`. -/
def FormatInfo.setVic (f : FormatInfo) (vicPos subsamp : Nat) : FormatInfo :=
  { f with
    vicInfo := setVicInfo f.vicInfo (f.vicPosIx vicPos)
      { vicPos := vicPos, subsampling := subsamp } }

theorem vicPosIx_lt_iff :
    f.vicPosIx vicPos < f.vicInfo.length ↔ vicPos ∈ f.positions := by
  rw [vicPosIx, List.findIdx_lt_length]
  simp [FormatInfo.positions]

theorem positions_setVic (f : FormatInfo) (vicPos subsamp : Nat) :
    (f.setVic vicPos subsamp).positions =
      if vicPos ∈ f.positions then f.positions else f.positions ++ [vicPos] := by
  rw [FormatInfo.setVic, FormatInfo.positions, setVicInfo]
  split
  next h =>
    rw [if_pos (vicPosIx_lt_iff.mp h), List.map_set]
    have hat : f.positions[f.vicPosIx vicPos]? = some vicPos := by
      have hfind := List.findIdx_getElem (w := h)
      rw [FormatInfo.positions, List.getElem?_map, List.getElem?_eq_getElem h, Option.map_some]
      exact congrArg some (beq_iff_eq.mp hfind)
    obtain ⟨hlt, hget⟩ := List.getElem?_eq_some_iff.mp hat
    have hself := List.set_getElem_self hlt
    rwa [hget] at hself
  next h =>
    rw [if_neg fun hmem => h (vicPosIx_lt_iff.mpr hmem), map_append]
    rfl

theorem FewPositions.setVic (h : FewPositions f) (hpos : vicPos < 16) (subsamp : Nat) :
    FewPositions (f.setVic vicPos subsamp) := by
  by_cases hmem : vicPos ∈ f.positions
  · constructor
    · rw [positions_setVic, if_pos hmem]
      exact h.nodup
    · rw [positions_setVic, if_pos hmem]
      exact h.lt
  · constructor
    · rw [positions_setVic, if_neg hmem]
      exact h.nodup.append (List.nodup_singleton vicPos) (by simpa using hmem)
    · rw [positions_setVic, if_neg hmem]
      intro j hj
      rcases List.mem_append.mp hj with hj | hj
      · exact h.lt j hj
      · rwa [List.mem_singleton.mp hj]

theorem FewPositions.vicPosIx_lt (h : FewPositions f) (hpos : vicPos < 16) :
    f.vicPosIx vicPos < 16 := by
  have hlen : f.positions.length = f.vicInfo.length := length_map _
  by_cases hmem : vicPos ∈ f.positions
  · have hlt := vicPosIx_lt_iff.mpr hmem
    have hle := length_le_of_nodup h.nodup h.lt
    omega
  · have hmore := h.setVic hpos 0
    have hle := length_le_of_nodup hmore.nodup hmore.lt
    have hidx : f.vicPosIx vicPos ≤ f.vicInfo.length := List.findIdx_le_length
    rw [positions_setVic, if_neg hmem, length_append, length_singleton] at hle
    omega

/-- All that entering the position of an entry of the list can do. -/
inductive Update (e : Entry) (edid : EdidT) : EdidT → Prop
  | ignored (h : edid.svdList.length < e.vicPos ∨ ∀ f ∈ edid.s3dFormatList, f.format ≠ e.format) :
      Update e edid edid
  | entered {k : Nat} {f : FormatInfo} (subsamp : Nat) (hpos : e.vicPos ≤ edid.svdList.length)
      (hk : edid.s3dFormatList[k]? = some f) (hformat : f.format = e.format) :
      Update e edid
        { edid with s3dFormatList := edid.s3dFormatList.set k (f.setVic e.vicPos subsamp) }

theorem updateS3dFormat_update (e : Entry) (edid : EdidT) (subsamp : Nat) :
    ∃ edid', (updateS3dFormat edid e.format e.vicPos subsamp).result = some edid' ∧
      Update e edid edid' ∧
      ((∀ f ∈ edid.s3dFormatList, FewPositions f) → e.vicPos < 16 →
        Safely (updateS3dFormat edid e.format e.vicPos subsamp) edid') := by
  rw [updateS3dFormat]
  split
  next hpos => exact ⟨edid, rfl, .ignored (Or.inl hpos), fun _ _ => safely_pure.mpr rfl⟩
  next hpos =>
    dsimp only
    split
    next hnone =>
      refine ⟨edid, rfl, .ignored (Or.inr ?_), fun _ _ => safely_pure.mpr rfl⟩
      intro f hf hformat
      have hlt : edid.s3dFormatList.findIdx (fun f => f.format == e.format) <
          edid.s3dFormatList.length :=
        List.findIdx_lt_length_of_exists ⟨f, hf, beq_iff_eq.mpr hformat⟩
      rw [List.getElem?_eq_none_iff] at hnone
      omega
    next f hf =>
      obtain ⟨hlt, hget⟩ := List.getElem?_eq_some_iff.mp hf
      have hformat : f.format = e.format := by
        have hfind := List.findIdx_getElem (w := hlt)
        rw [hget] at hfind
        exact beq_iff_eq.mp hfind
      refine ⟨_, ?_, .entered subsamp (Nat.not_lt.mp hpos) hf hformat, ?_⟩
      · simp only [result_bind, result_watch, result_pure, Option.bind_some]
        rfl
      · intro hfew h16
        have hidx := (hfew f (List.mem_of_getElem? hf)).vicPosIx_lt h16
        exact safely_bind.mpr ⟨(), safely_watch.mpr hidx, safely_pure.mpr rfl⟩

section Update
variable {e : Entry} {edid edid' : EdidT}

theorem Update.fewPositions (h : Update e edid edid') (hpos : e.vicPos < 16)
    (hfew : ∀ f ∈ edid.s3dFormatList, FewPositions f) :
    ∀ f ∈ edid'.s3dFormatList, FewPositions f := by
  cases h with
  | ignored => exact hfew
  | entered subsamp _ hk _ =>
    intro f' hf'
    rcases List.mem_or_eq_of_mem_set hf' with hold | rfl
    · exact hfew f' hold
    · exact (hfew _ (List.mem_of_getElem? hk)).setVic hpos subsamp

end Update

/-- The entries of the list, one after the other. -/
inductive Updates : List Entry → EdidT → EdidT → Prop
  | nil (edid : EdidT) : Updates [] edid edid
  | cons {e : Entry} {es : List Entry} {edid edid₁ edid' : EdidT} (h : Update e edid edid₁)
      (hs : Updates es edid₁ edid') : Updates (e :: es) edid edid'

/-! ## The second reading -/

theorem entryOf_lt (b : Byte) : (Entry.ofByte b).vicPos < 16 := entryVicPos_lt b

theorem s3dList_safe (h : listEntries (bytesFrom edidData off n) = some es) :
    (∀ k < n, off + k < edidSize) → n < 256 → ∀ passes edid, n < passes →
      (∀ f ∈ edid.s3dFormatList, FewPositions f) →
      ∃ edid', Safely (s3dList edidData passes off n edid) edid' ∧ Updates es edid edid' := by
  refine listEntries_induct (P := fun off n es => (∀ k < n, off + k < edidSize) → n < 256 →
    ∀ passes edid, n < passes → (∀ f ∈ edid.s3dFormatList, FewPositions f) →
      ∃ edid', Safely (s3dList edidData passes off n edid) edid' ∧ Updates es edid edid')
    ?_ ?_ ?_ h
  · intro off _ _ passes edid hpasses _
    obtain ⟨passes, rfl⟩ : ∃ p, passes = p + 1 := ⟨passes - 1, by omega⟩
    refine ⟨edid, ?_, .nil edid⟩
    rw [s3dList, if_neg (Nat.lt_irrefl 0), safely_pure]
  · intro off n es hformat ih hin hn passes edid hpasses hfew
    obtain ⟨passes, rfl⟩ : ∃ p, passes = p + 1 := ⟨passes - 1, by omega⟩
    obtain ⟨edid₁, -, hupdate, hsafe⟩ := updateS3dFormat_update (.ofByte (edidData off)) edid
      (if entryFormat (edidData off) = hdmiTopbottom then hdmiSsVertical else hdmiSsNone)
    obtain ⟨edid', hrest, hupdates⟩ :=
      ih (fun k hk => by have hlt := hin (k + 1) (by omega); omega) (by omega) passes edid₁
        (by omega) (hupdate.fewPositions (entryOf_lt _) hfew)
    refine ⟨edid', ?_, .cons hupdate hupdates⟩
    rw [s3dList, if_pos n.succ_pos]
    refine safely_bind.mpr ⟨_, safely_readByte.mpr ⟨hin 0 n.succ_pos, rfl⟩, ?_⟩
    rw [if_neg (Nat.not_le.mpr hformat)]
    refine safely_bind.mpr ⟨edid₁, hsafe hfew (entryOf_lt _), ?_⟩
    exact safely_bind.mpr ⟨n, (safely_sub8 hn).mpr ⟨by omega, by omega⟩, hrest⟩
  · intro off n es hformat ih hin hn passes edid hpasses hfew
    obtain ⟨passes, rfl⟩ : ∃ p, passes = p + 1 := ⟨passes - 1, by omega⟩
    obtain ⟨edid₁, -, hupdate, hsafe⟩ := updateS3dFormat_update (.ofByte (edidData off)) edid
      (entryVicPos (edidData (off + 1)))
    obtain ⟨edid', hrest, hupdates⟩ :=
      ih (fun k hk => by have hlt := hin (k + 2) (by omega); omega) (by omega) passes edid₁
        (by omega) (hupdate.fewPositions (entryOf_lt _) hfew)
    refine ⟨edid', ?_, .cons hupdate hupdates⟩
    rw [s3dList, if_pos (Nat.succ_pos _)]
    refine safely_bind.mpr ⟨_, safely_readByte.mpr ⟨hin 0 (Nat.succ_pos _), rfl⟩, ?_⟩
    rw [if_pos hformat]
    refine safely_bind.mpr ⟨_, safely_readByte.mpr ⟨hin 1 (by omega), rfl⟩, ?_⟩
    refine safely_bind.mpr ⟨n + 1, (safely_sub8 hn).mpr ⟨by omega, by omega⟩, ?_⟩
    refine safely_bind.mpr ⟨edid₁, hsafe hfew (entryOf_lt _), ?_⟩
    exact safely_bind.mpr ⟨n, (safely_sub8 (by omega)).mpr ⟨by omega, by omega⟩, hrest⟩

theorem s3dList_inside {passes : Nat} {edid edid' : EdidT} (hn : n < 256)
    (h : Safely (s3dList edidData passes off n edid) edid') : ∀ k < n, off + k < edidSize := by
  induction passes generalizing n off edid with
  | zero => exact absurd h safely_outOfPasses
  | succ passes ih =>
    rw [s3dList] at h
    split at h
    next hpos =>
      obtain ⟨b, hb, h⟩ := safely_bind.mp h
      obtain ⟨hfirst, rfl⟩ := safely_readByte.mp hb
      split at h
      next =>
        obtain ⟨b, hb, h⟩ := safely_bind.mp h
        obtain ⟨hsecond, -⟩ := safely_readByte.mp hb
        obtain ⟨n₁, hn₁, h⟩ := safely_bind.mp h
        obtain ⟨edid₁, -, h⟩ := safely_bind.mp h
        obtain ⟨n₂, hn₂, h⟩ := safely_bind.mp h
        obtain ⟨hle₁, rfl⟩ := (safely_sub8 hn).mp hn₁
        obtain ⟨hle₂, rfl⟩ := (safely_sub8 (by omega)).mp hn₂
        have hrest := ih (by omega) h
        intro k hk
        match k with
        | 0 => exact hfirst
        | 1 => exact hsecond
        | k + 2 =>
          have hlt := hrest k (by omega)
          omega
      next =>
        obtain ⟨edid₁, -, h⟩ := safely_bind.mp h
        obtain ⟨n₁, hn₁, h⟩ := safely_bind.mp h
        obtain ⟨hle₁, rfl⟩ := (safely_sub8 hn).mp hn₁
        have hrest := ih (by omega) h
        intro k hk
        match k with
        | 0 => exact hfirst
        | k + 1 =>
          have hlt := hrest k (by omega)
          omega
    next hpos =>
      intro k hk
      omega

/-! ## The masks and the list -/

/-- The bytes of the masks. -/
def maskLength (multiPresent : Nat) : Nat :=
  if multiPresent = 1 then 2 else if multiPresent = 2 then 4 else 0

/-- The masks, and where the list behind them is. -/
def masksOf (edidData : Memory) (s : S3dSection) : S3dMasks :=
  { structAll :=
      if s.multiPresent = 1 ∨ s.multiPresent = 2 then
        word16 (edidData s.off) (edidData (s.off + 1))
      else 0
    vicPosBits :=
      if s.multiPresent = 1 then 0xFFFF
      else if s.multiPresent = 2 then word16 (edidData (s.off + 2)) (edidData (s.off + 3))
      else 0
    off := s.off + maskLength s.multiPresent
    len := s.len - maskLength s.multiPresent }

theorem safely_s3dMasks {s : S3dSection} (hlen : s.len < 256) {m : S3dMasks} :
    Safely (s3dMasks edidData s) m ↔
      maskLength s.multiPresent ≤ s.len ∧
        (∀ k < maskLength s.multiPresent, s.off + k < edidSize) ∧ masksOf edidData s = m := by
  rw [s3dMasks]
  by_cases h1 : s.multiPresent = 1
  · have hm : maskLength 1 = 2 := rfl
    simp only [h1, masksOf, hm, true_or, if_true, safely_bind, safely_readByte, safely_sub8 hlen,
      if_neg (by decide : ¬ (1 : Nat) = 2), safely_pure]
    constructor
    · rintro ⟨_, ⟨h₀, rfl⟩, _, ⟨h₁, rfl⟩, _, ⟨hle, rfl⟩, rfl⟩
      refine ⟨hle, ?_, rfl⟩
      intro k hk
      obtain rfl | rfl : k = 0 ∨ k = 1 := by omega
      · exact h₀
      · exact h₁
    · rintro ⟨hle, hin, rfl⟩
      exact ⟨_, ⟨hin 0 (by decide), rfl⟩, _, ⟨hin 1 (by decide), rfl⟩, _, ⟨hle, rfl⟩, rfl⟩
  · by_cases h2 : s.multiPresent = 2
    · have hm : maskLength 2 = 4 := rfl
      simp only [h2, masksOf, hm, or_true, if_true, safely_bind, safely_readByte,
        safely_sub8 hlen, if_neg (by decide : ¬ (2 : Nat) = 1), safely_pure]
      constructor
      · rintro ⟨_, ⟨h₀, rfl⟩, _, ⟨h₁, rfl⟩, _, ⟨hle₁, rfl⟩, _, ⟨h₂, rfl⟩, _, ⟨h₃, rfl⟩, n, hn,
          rfl⟩
        obtain ⟨hle₂, rfl⟩ := (safely_sub8 (by omega)).mp hn
        refine ⟨by omega, ?_, ?_⟩
        · intro k hk
          obtain rfl | rfl | rfl | rfl : k = 0 ∨ k = 1 ∨ k = 2 ∨ k = 3 := by omega
          · exact h₀
          · exact h₁
          · exact h₂
          · exact h₃
        · rw [Nat.sub_sub]
      · rintro ⟨hle, hin, rfl⟩
        refine ⟨_, ⟨hin 0 (by decide), rfl⟩, _, ⟨hin 1 (by decide), rfl⟩, _, ⟨by omega, rfl⟩, _,
          ⟨hin 2 (by decide), rfl⟩, _, ⟨hin 3 (by decide), rfl⟩, s.len - 4, ?_, rfl⟩
        exact (safely_sub8 (by omega)).mpr ⟨by omega, by omega⟩
    · have hm : maskLength s.multiPresent = 0 := by rw [maskLength, if_neg h1, if_neg h2]
      simp only [h1, h2, masksOf, hm, or_self, if_false, safely_pure]
      constructor
      · rintro rfl
        exact ⟨Nat.zero_le _, fun k hk => absurd hk (Nat.not_lt_zero k), rfl⟩
      · rintro ⟨-, -, rfl⟩
        rfl

/-- The section lies inside the data, and its list ends with an entry. -/
structure ListContained (edidData : Memory) (s : S3dSection) (es : List Entry) : Prop where
  masks : maskLength s.multiPresent ≤ s.len
  inside : ∀ k < s.len, s.off + k < edidSize
  whole :
    listEntries (bytesFrom edidData (masksOf edidData s).off (masksOf edidData s).len) = some es

/-- The bits of all formats that are counted. -/
def structBitsOf (edidData : Memory) (s : S3dSection) (es : List Entry) : Nat :=
  formatBits es ((masksOf edidData s).structAll &&& 0x7FFF)

/-- The entries before the list is read again. -/
def filledFormats (edidData : Memory) (fresh : Nat → Nat) (s : S3dSection) (es : List Entry) :
    List FormatInfo :=
  (initialFormats fresh (structBitsOf edidData s es)).map
    (maskInfo (masksOf edidData s).structAll (masksOf edidData s).vicPosBits)

section Section
variable {s : S3dSection} {es : List Entry} {edid : EdidT} {fresh : Nat → Nat} {passes : Nat}

variable (edid fresh passes) in
theorem edidParseS3dSection_safe (h : ListContained edidData s es) (hlen : s.len < 256)
    (hpasses : s.len < passes) :
    ∃ edid', Safely (edidParseS3dSection edid edidData fresh passes s) edid' ∧
      Updates es
        { edid with s3dCapable := true, s3dFormatList := filledFormats edidData fresh s es }
        edid' := by
  have hmasks : Safely (s3dMasks edidData s) (masksOf edidData s) := (safely_s3dMasks hlen).mpr
    ⟨h.masks, fun k hk => h.inside k (Nat.lt_of_lt_of_le hk h.masks), rfl⟩
  have hin : ∀ k < (masksOf edidData s).len, (masksOf edidData s).off + k < edidSize := by
    intro k hk
    have hk' : k < s.len - maskLength s.multiPresent := hk
    have hlt := h.inside (maskLength s.multiPresent + k) (by omega)
    rwa [← Nat.add_assoc] at hlt
  have hle : (masksOf edidData s).len ≤ s.len := Nat.sub_le _ _
  have hbits := setS3dFormatBits_safe h.whole hin ((masksOf edidData s).structAll &&& 0x7FFF)
  have hfew : ∀ f ∈ filledFormats edidData fresh s es, FewPositions f := by
    intro f hf
    obtain ⟨f₀, -, rfl⟩ := List.mem_map.mp hf
    exact fewPositions_maskInfo _ _ f₀
  obtain ⟨edid', hlist, hupdates⟩ := s3dList_safe h.whole hin (by omega) passes
    { edid with s3dCapable := true, s3dFormatList := filledFormats edidData fresh s es } (by omega)
    hfew
  refine ⟨edid', ?_, hupdates⟩
  refine safely_bind.mpr ⟨_, hmasks, safely_bind.mpr ⟨_, hbits, ?_⟩⟩
  refine safely_bind.mpr ⟨_, s3dFormats_safe fresh _, ?_⟩
  exact safely_bind.mpr ⟨_, fillVicInfos_safe _ _ _, hlist⟩

theorem edidParseS3dSection_contained (hlen : s.len < 256) {edid' : EdidT}
    (h : Safely (edidParseS3dSection edid edidData fresh passes s) edid') :
    ∃ es, ListContained edidData s es := by
  obtain ⟨m, hm, h⟩ := safely_bind.mp h
  obtain ⟨hmasks, hin, rfl⟩ := (safely_s3dMasks hlen).mp hm
  obtain ⟨bits, hbits, h⟩ := safely_bind.mp h
  obtain ⟨es, hes⟩ := setS3dFormatBits_whole hbits
  obtain ⟨formats, -, h⟩ := safely_bind.mp h
  obtain ⟨filled, -, h⟩ := safely_bind.mp h
  have hrest := s3dList_inside (Nat.lt_of_le_of_lt (Nat.sub_le _ _) hlen) h
  refine ⟨es, hmasks, ?_, hes⟩
  intro k hk
  by_cases hlt : k < maskLength s.multiPresent
  · exact hin k hlt
  · have hat := hrest (k - maskLength s.multiPresent) (by
      show k - maskLength s.multiPresent < s.len - maskLength s.multiPresent
      omega)
    have hoff : (masksOf edidData s).off = s.off + maskLength s.multiPresent := rfl
    omega

end Section

end Omap4Hal.Edid

import Omap4Hal.Edid.FormatList

/- When the parser is safe: it returns, reads inside the 256 bytes, no 8-bit counter leaves its
   range and no index its table.

   The search for a block never looks at where it lands. `Reach` follows it with offsets that
   do not wrap; it is safe exactly if they all stay below 256 (`search_visits`, `search_safe`).
   The section is read twice, first for its formats and then for its entries. What the first
   reading allows is that the list ends with an entry, and the second reads every byte of it
   (`listEntries`). The indices into `vic_info` are no matter: positions have four bits, and one
   that is there is not entered again (`FewPositions`). -/
namespace Omap4Hal.Edid

open Lib Lib.Watched

/-! ## The search for a block -/

/-- The offsets from `o` on. -/
inductive Reach (edidData : Memory) (type : DatablockId) (stop : Nat) : Nat → Nat → Prop
  | refl (o : Nat) : Reach edidData type stop o o
  | step {o o' : Nat} (hstop : o < stop) (htype : blockType (edidData o) ≠ type.code)
      (h : Reach edidData type stop (o + (blockLength (edidData o) + 1)) o') :
      Reach edidData type stop o o'

/-- The search comes to a block at `o`. -/
structure Visited (edidData : Memory) (type : DatablockId) (o : Nat) : Prop where
  extension : edidData 0x7e ≠ 0#8
  blocks : edidData 0x82 ≠ 4#8
  reach : Reach edidData type (0x80 + (edidData 0x82).toNat) 0x84 o

/-- It is the block that is looked for. -/
structure BlockAt (edidData : Memory) (type : DatablockId) (o : Nat) : Prop
    extends Visited edidData type o where
  inside : o < 0x80 + (edidData 0x82).toNat
  isType : blockType (edidData o) = type.code

section Walk
variable {edidData : Memory} {type : DatablockId} {stop : Nat}

theorem safely_walk_succ {passes o : Nat} {r : Option Nat} (hstop : o < stop)
    (htype : blockType (edidData o) ≠ type.code) :
    Safely (datablockWalk edidData type stop (passes + 1) o) r ↔
      o < edidSize ∧ o + (blockLength (edidData o) + 1) < 256 ∧
        Safely (datablockWalk edidData type stop passes (o + (blockLength (edidData o) + 1)))
          r := by
  rw [datablockWalk, if_pos hstop]
  simp only [safely_bind, safely_readByte]
  constructor
  · rintro ⟨b, ⟨ho, rfl⟩, h⟩
    rw [if_neg htype] at h
    obtain ⟨o', ho', h⟩ := safely_bind.mp h
    obtain ⟨hlt, rfl⟩ := safely_add8.mp ho'
    exact ⟨ho, hlt, h⟩
  · rintro ⟨ho, hlt, h⟩
    refine ⟨edidData o, ⟨ho, rfl⟩, ?_⟩
    rw [if_neg htype]
    exact safely_bind.mpr ⟨_, safely_add8.mpr ⟨hlt, rfl⟩, h⟩

/-- A search that is safe has come to offsets below 256 only, and to the block it has found. -/
theorem walk_visits {passes o : Nat} {r : Option Nat} (ho : o < 256)
    (h : Safely (datablockWalk edidData type stop passes o) r) :
    (∀ o', Reach edidData type stop o o' → o' < 256) ∧
      ∀ o', r = some o' ↔ Reach edidData type stop o o' ∧ o' < stop ∧
        blockType (edidData o') = type.code := by
  induction passes generalizing o with
  | zero => exact absurd h safely_outOfPasses
  | succ passes ih =>
    by_cases hstop : o < stop
    · by_cases htype : blockType (edidData o) = type.code
      · rw [datablockWalk, if_pos hstop] at h
        simp only [safely_bind, safely_readByte] at h
        obtain ⟨b, ⟨-, rfl⟩, h⟩ := h
        rw [if_pos htype, safely_pure] at h
        have honly : ∀ o', Reach edidData type stop o o' → o' = o := by
          intro o' hreach
          cases hreach with
          | refl => rfl
          | step _ hne _ => exact absurd htype hne
        refine ⟨fun o' hreach => honly o' hreach ▸ ho, ?_⟩
        intro o'
        rw [← h, Option.some.injEq]
        constructor
        · rintro rfl
          exact ⟨.refl o, hstop, htype⟩
        · intro hfound
          exact (honly o' hfound.1).symm
      · obtain ⟨-, hlt, h⟩ := (safely_walk_succ hstop htype).mp h
        obtain ⟨hall, hfound⟩ := ih hlt h
        constructor
        · intro o' hreach
          cases hreach with
          | refl => exact ho
          | step _ _ hrest => exact hall o' hrest
        · intro o'
          rw [hfound]
          constructor
          · rintro ⟨hrest, hin, hty⟩
            exact ⟨.step hstop htype hrest, hin, hty⟩
          · rintro ⟨hreach, hin, hty⟩
            cases hreach with
            | refl => exact absurd hty htype
            | step _ _ hrest => exact ⟨hrest, hin, hty⟩
    · rw [datablockWalk, if_neg hstop, safely_pure] at h
      have honly : ∀ o', Reach edidData type stop o o' → o' = o := by
        intro o' hreach
        cases hreach with
        | refl => rfl
        | step hin _ _ => exact absurd hin hstop
      refine ⟨fun o' hreach => honly o' hreach ▸ ho, ?_⟩
      intro o'
      rw [← h]
      constructor
      · intro hnone
        cases hnone
      · rintro ⟨hreach, hin, -⟩
        rw [honly o' hreach] at hin
        exact absurd hin hstop

theorem walk_safe {passes o : Nat} (hall : ∀ o', Reach edidData type stop o o' → o' < 256)
    (hpasses : 256 - o < passes) : ∃ r, Safely (datablockWalk edidData type stop passes o) r := by
  induction passes generalizing o with
  | zero => omega
  | succ passes ih =>
    have ho := hall o (.refl o)
    by_cases hstop : o < stop
    · by_cases htype : blockType (edidData o) = type.code
      · refine ⟨some o, ?_⟩
        rw [datablockWalk, if_pos hstop]
        refine safely_bind.mpr ⟨edidData o, safely_readByte.mpr ⟨ho, rfl⟩, ?_⟩
        rw [if_pos htype, safely_pure]
      · have hlt := hall _ (.step hstop htype (.refl _))
        obtain ⟨r, hr⟩ := ih (fun o' h => hall o' (.step hstop htype h)) (by omega)
        exact ⟨r, (safely_walk_succ hstop htype).mpr ⟨ho, hlt, hr⟩⟩
    · refine ⟨none, ?_⟩
      rw [datablockWalk, if_neg hstop, safely_pure]

end Walk

variable {edidData : Memory} {type : DatablockId} {passes : Nat}

theorem safely_search {r : Option Nat} :
    Safely (edidGetDatablockOffset edidData type passes) r ↔
      if edidData 0x7e = 0#8 ∨ edidData 0x82 = 4#8 then r = none
      else Safely (datablockWalk edidData type (0x80 + (edidData 0x82).toNat) passes 0x84) r := by
  have hsize : 0x7e < edidSize ∧ 0x82 < edidSize := by decide
  simp only [edidGetDatablockOffset, safely_bind, safely_readByte, hsize, true_and,
    exists_eq_left']
  by_cases hext : edidData 0x7e = 0#8
  · simp [hext, eq_comm]
  · by_cases hblocks : edidData 0x82 = 4#8
    · simp [hext, hblocks, hsize, eq_comm]
    · simp [hext, hblocks, hsize]

theorem search_visits {r : Option Nat}
    (h : Safely (edidGetDatablockOffset edidData type passes) r) :
    (∀ o, Visited edidData type o → o < 256) ∧ ∀ o, r = some o ↔ BlockAt edidData type o := by
  rw [safely_search] at h
  split at h
  next hnone =>
    subst h
    constructor
    · intro o hv
      rcases hnone with hext | hblocks
      · exact absurd hext hv.extension
      · exact absurd hblocks hv.blocks
    · intro o
      constructor
      · intro hn
        cases hn
      · intro hb
        rcases hnone with hext | hblocks
        · exact absurd hext hb.extension
        · exact absurd hblocks hb.blocks
  next hsome =>
    rw [not_or] at hsome
    obtain ⟨hall, hfound⟩ := walk_visits (by decide) h
    refine ⟨fun o hv => hall o hv.reach, ?_⟩
    intro o
    rw [hfound]
    constructor
    · rintro ⟨hreach, hin, hty⟩
      exact ⟨⟨hsome.1, hsome.2, hreach⟩, hin, hty⟩
    · intro hb
      exact ⟨hb.reach, hb.inside, hb.isType⟩

theorem search_safe (hall : ∀ o, Visited edidData type o → o < 256) (hpasses : 256 ≤ passes) :
    ∃ r, Safely (edidGetDatablockOffset edidData type passes) r := by
  by_cases hnone : edidData 0x7e = 0#8 ∨ edidData 0x82 = 4#8
  · refine ⟨none, ?_⟩
    rw [safely_search, if_pos hnone]
  · have hsome := not_or.mp hnone
    obtain ⟨r, hr⟩ : ∃ r, Safely (datablockWalk edidData type
        (0x80 + (edidData 0x82).toNat) passes 0x84) r := walk_safe
      (fun o hreach => hall o ⟨hsome.1, hsome.2, hreach⟩) (by omega)
    refine ⟨r, ?_⟩
    rw [safely_search, if_neg hnone]
    exact hr

/-! ## The descriptors -/

/-- The bytes the descriptors are read from, and the rows of the table they ask for. -/
def DescriptorsContained (edidData : Memory) (o : Nat) : Prop :=
  ∀ i < blockLength (edidData o), o + i < edidSize ∧ svdCode (edidData (o + i)) ≠ numSvdEntries

theorem safely_edidFillSvdInfo {code : Nat} :
    (∃ info, Safely (edidFillSvdInfo code) info) ↔ code ≠ numSvdEntries := by
  have hpos : 0 < numSvdEntries := by decide
  simp only [edidFillSvdInfo, safely_bind, safely_watch, safely_pure, exists_const]
  rw [exists_and_left]
  simp only [exists_eq', and_true]
  split <;> omega

theorem safely_svdAt {o i : Nat} :
    (∃ svd, Safely (svdAt edidData o i) svd) ↔
      o + i < edidSize ∧ svdCode (edidData (o + i)) ≠ numSvdEntries := by
  rw [← safely_edidFillSvdInfo]
  simp only [svdAt, safely_bind, safely_readByte, safely_pure]
  constructor
  · rintro ⟨svd, b, ⟨ho, rfl⟩, info, hinfo, -⟩
    exact ⟨ho, info, hinfo⟩
  · rintro ⟨ho, info, hinfo⟩
    exact ⟨_, _, ⟨ho, rfl⟩, info, hinfo, rfl⟩

theorem svds_contained {svds : List Svd} (h : Safely (edidParseSvds edidData passes) svds) :
    (∀ o, Visited edidData .video o → o < 256) ∧
      ∀ o, BlockAt edidData .video o → DescriptorsContained edidData o := by
  obtain ⟨r, hr, hrest⟩ := safely_bind.mp h
  obtain ⟨hall, hfound⟩ := search_visits hr
  refine ⟨hall, ?_⟩
  intro o hblock
  obtain rfl := (hfound o).mpr hblock
  obtain ⟨b, hb, hlist⟩ := safely_bind.mp hrest
  obtain ⟨-, rfl⟩ := safely_readByte.mp hb
  intro i hi
  obtain ⟨svd, hsvd⟩ :=
    (safely_mapM_exists.mp ⟨svds, hlist⟩) i (List.mem_range.mpr hi)
  exact safely_svdAt.mp ⟨svd, hsvd⟩

theorem svds_safe (hall : ∀ o, Visited edidData .video o → o < 256)
    (hblock : ∀ o, BlockAt edidData .video o → DescriptorsContained edidData o) :
    ∃ svds, Safely (edidParseSvds edidData 256) svds := by
  obtain ⟨r, hr⟩ := search_safe hall (Nat.le_refl 256)
  obtain ⟨-, hfound⟩ := search_visits hr
  cases r with
  | none => exact ⟨[], safely_bind.mpr ⟨none, hr, safely_pure.mpr rfl⟩⟩
  | some o =>
    have hb := (hfound o).mp rfl
    obtain ⟨svds, hsvds⟩ := safely_mapM_exists.mpr fun i hi =>
      safely_svdAt.mpr (hblock o hb i (List.mem_range.mp hi))
    refine ⟨svds, safely_bind.mpr ⟨some o, hr, ?_⟩⟩
    exact safely_bind.mpr ⟨edidData o, safely_readByte.mpr ⟨hall o hb.toVisited, rfl⟩, hsvds⟩

/-! ## The vendor block -/

/-- Where the byte is that says whether there is a section. -/
def presentOff (edidData : Memory) (o : Nat) : Nat := o + 9 + latencyLength (edidData (o + 8))

/-- The section that the block at `o` signals. -/
def signalledSection (edidData : Memory) (o : Nat) : S3dSection :=
  { multiPresent := s3dMultiPresent (edidData (presentOff edidData o))
    off := presentOff edidData o + 2 + hdmiXxLen (edidData (presentOff edidData o + 1))
    len := hdmi3dLen (edidData (presentOff edidData o + 1)) }

theorem signalledSection_len (edidData : Memory) (o : Nat) :
    (signalledSection edidData o).len < 256 :=
  Nat.lt_trans (hdmi3dLen_lt _) (by decide)

/-- The block at `o` signals a section. -/
def Signals (edidData : Memory) (o : Nat) : Prop :=
  hdmiVideoPresent (edidData (o + 8)) = true ∧
    threeDPresent (edidData (presentOff edidData o)) = true

instance (edidData : Memory) (o : Nat) : Decidable (Signals edidData o) :=
  inferInstanceAs (Decidable (_ ∧ _))

/-- The bytes the parser reads for the block lie inside the data. -/
structure VendorContained (edidData : Memory) (o : Nat) : Prop where
  flags : o + 8 < edidSize
  present : hdmiVideoPresent (edidData (o + 8)) = true → presentOff edidData o < edidSize
  lengths : Signals edidData o → presentOff edidData o + 1 < edidSize
  list : Signals edidData o → ∃ es, ListContained edidData (signalledSection edidData o) es

theorem safely_s3dSection {o : Nat} {r : Option S3dSection} :
    Safely (s3dSection edidData o) r ↔
      o + 8 < edidSize ∧
        (hdmiVideoPresent (edidData (o + 8)) = true → presentOff edidData o < edidSize) ∧
        (Signals edidData o →
          presentOff edidData o + 1 < edidSize ∧ r = some (signalledSection edidData o)) ∧
        (¬ Signals edidData o → r = none) := by
  simp only [s3dSection, safely_bind, safely_readByte, Signals]
  by_cases hvideo : hdmiVideoPresent (edidData (o + 8)) = true
  · by_cases hpresent : threeDPresent (edidData (presentOff edidData o)) = true
    · have hthreeD : threeDPresent (edidData (o + 9 + latencyLength (edidData (o + 8)))) = true :=
        hpresent
      constructor
      · rintro ⟨_, ⟨h₀, rfl⟩, h⟩
        rw [if_pos hvideo] at h
        obtain ⟨_, hb, h⟩ := safely_bind.mp h
        obtain ⟨h₁, rfl⟩ := safely_readByte.mp hb
        rw [if_pos hthreeD] at h
        obtain ⟨_, hb, h⟩ := safely_bind.mp h
        obtain ⟨h₂, rfl⟩ := safely_readByte.mp hb
        exact ⟨h₀, fun _ => h₁, fun _ => ⟨h₂, (safely_pure.mp h).symm⟩,
          fun hnot => absurd ⟨hvideo, hpresent⟩ hnot⟩
      · rintro ⟨h₀, h₁, h₂, -⟩
        obtain ⟨hlens, rfl⟩ := h₂ ⟨hvideo, hpresent⟩
        refine ⟨_, ⟨h₀, rfl⟩, ?_⟩
        rw [if_pos hvideo]
        refine safely_bind.mpr ⟨_, safely_readByte.mpr ⟨h₁ hvideo, rfl⟩, ?_⟩
        rw [if_pos hthreeD]
        exact safely_bind.mpr ⟨_, safely_readByte.mpr ⟨hlens, rfl⟩, safely_pure.mpr rfl⟩
    · have hthreeD : ¬ threeDPresent (edidData (o + 9 + latencyLength (edidData (o + 8)))) = true :=
        hpresent
      constructor
      · rintro ⟨_, ⟨h₀, rfl⟩, h⟩
        rw [if_pos hvideo] at h
        obtain ⟨_, hb, h⟩ := safely_bind.mp h
        obtain ⟨h₁, rfl⟩ := safely_readByte.mp hb
        rw [if_neg hthreeD, safely_pure] at h
        exact ⟨h₀, fun _ => h₁, fun hs => absurd hs.2 hpresent, fun _ => h.symm⟩
      · rintro ⟨h₀, h₁, -, hnone⟩
        obtain rfl := hnone fun hs => hpresent hs.2
        refine ⟨_, ⟨h₀, rfl⟩, ?_⟩
        rw [if_pos hvideo]
        refine safely_bind.mpr ⟨_, safely_readByte.mpr ⟨h₁ hvideo, rfl⟩, ?_⟩
        rw [if_neg hthreeD, safely_pure]
  · constructor
    · rintro ⟨_, ⟨h₀, rfl⟩, h⟩
      rw [if_neg hvideo, safely_pure] at h
      exact ⟨h₀, fun hv => absurd hv hvideo, fun hs => absurd hs.1 hvideo, fun _ => h.symm⟩
    · rintro ⟨h₀, -, -, hnone⟩
      obtain rfl := hnone fun hs => hvideo hs.1
      refine ⟨_, ⟨h₀, rfl⟩, ?_⟩
      rw [if_neg hvideo, safely_pure]

theorem support_contained {edid edid' : EdidT} {fresh : Nat → Nat}
    (h : Safely (edidParseS3dSupport edid edidData fresh passes) edid') :
    (∀ o, Visited edidData .vendor o → o < 256) ∧
      ∀ o, BlockAt edidData .vendor o → VendorContained edidData o := by
  obtain ⟨r, hr, h⟩ := safely_bind.mp h
  obtain ⟨hall, hfound⟩ := search_visits hr
  refine ⟨hall, ?_⟩
  intro o hblock
  obtain rfl := (hfound o).mpr hblock
  obtain ⟨sec, hsec, h⟩ := safely_bind.mp h
  obtain ⟨hflags, hpresent, hsome, -⟩ := safely_s3dSection.mp hsec
  refine ⟨hflags, hpresent, fun hs => (hsome hs).1, ?_⟩
  intro hs
  obtain ⟨-, rfl⟩ := hsome hs
  exact edidParseS3dSection_contained (signalledSection_len edidData o) h

theorem support_safe (hall : ∀ o, Visited edidData .vendor o → o < 256)
    (hblock : ∀ o, BlockAt edidData .vendor o → VendorContained edidData o) (edid : EdidT)
    (fresh : Nat → Nat) :
    ∃ edid', Safely (edidParseS3dSupport edid edidData fresh 256) edid' := by
  obtain ⟨r, hr⟩ := search_safe hall (Nat.le_refl 256)
  obtain ⟨-, hfound⟩ := search_visits hr
  cases r with
  | none => exact ⟨edid, safely_bind.mpr ⟨none, hr, safely_pure.mpr rfl⟩⟩
  | some o =>
    have hb := hblock o ((hfound o).mp rfl)
    by_cases hs : Signals edidData o
    · have hsec := safely_s3dSection.mpr
        ⟨hb.flags, hb.present, fun hs => ⟨hb.lengths hs, rfl⟩, fun hnot => absurd hs hnot⟩
      obtain ⟨es, hes⟩ := hb.list hs
      have hlen := signalledSection_len edidData o
      obtain ⟨edid', hedid', -⟩ := edidParseS3dSection_safe edid fresh 256 hes
        hlen hlen
      exact ⟨edid', safely_bind.mpr ⟨some o, hr, safely_bind.mpr ⟨_, hsec, hedid'⟩⟩⟩
    · have hsec := safely_s3dSection.mpr
        ⟨hb.flags, hb.present, fun h => absurd h hs, fun _ => rfl⟩
      exact ⟨edid, safely_bind.mpr ⟨some o, hr, safely_bind.mpr ⟨none, hsec,
        safely_pure.mpr rfl⟩⟩⟩

/-! ## The parser -/

/-- The parser returns, and every step on the way was as it should be. -/
def Safe (edidData : Memory) (fresh : Nat → Nat) : Prop :=
  ∃ passes edid, Safely (edidParserInit edidData fresh passes) edid

/-- Neither search leaves the range of its offset, and what the blocks ask for lies inside the
data and the table. -/
structure Contained (edidData : Memory) : Prop where
  videoSearch : ∀ o, Visited edidData .video o → o < 256
  descriptors : ∀ o, BlockAt edidData .video o → DescriptorsContained edidData o
  vendorSearch : ∀ o, Visited edidData .vendor o → o < 256
  vendor : ∀ o, BlockAt edidData .vendor o → VendorContained edidData o

theorem Safe.contained {fresh : Nat → Nat} (h : Safe edidData fresh) : Contained edidData := by
  obtain ⟨passes, edid, h⟩ := h
  obtain ⟨svds, hsvds, h⟩ := safely_bind.mp h
  obtain ⟨hvideo, hdescriptors⟩ := svds_contained hsvds
  obtain ⟨hvendor, hblock⟩ := support_contained h
  exact ⟨hvideo, hdescriptors, hvendor, hblock⟩

theorem Contained.safe (h : Contained edidData) (fresh : Nat → Nat) : Safe edidData fresh := by
  obtain ⟨svds, hsvds⟩ := svds_safe h.videoSearch h.descriptors
  obtain ⟨edid, hedid⟩ := support_safe h.vendorSearch h.vendor
    { s3dCapable := false, s3dFormatList := [], svdList := svds } fresh
  exact ⟨256, edid, safely_bind.mpr ⟨svds, hsvds, hedid⟩⟩

/-- The parser is safe exactly on the data that contain what they ask for. -/
theorem parser_safe_iff (edidData : Memory) (fresh : Nat → Nat) :
    Safe edidData fresh ↔ Contained edidData :=
  ⟨fun h => h.contained, fun h => h.safe fresh⟩

/-- A display of 100 Hz: its video block names the codes 64 and 16. -/
def display100Hz : Memory := fun k =>
  match k with
  | 0x7e => 0x01#8
  | 0x82 => 0x07#8
  | 0x84 => 0x42#8
  | 0x85 => 0x40#8
  | 0x86 => 0x10#8
  | _ => 0x00#8

/-- The row behind the last one of the table is copied. -/
theorem display100Hz_not_safe : ¬ Safe display100Hz fun _ => 0 := by
  intro h
  have hblock : BlockAt display100Hz .video 0x84 :=
    ⟨⟨by decide, by decide, .refl 0x84⟩, by decide, by decide⟩
  have hcode := (h.contained.descriptors 0x84 hblock 1 (by decide)).2
  exact hcode (by decide)

end Omap4Hal.Edid

import Omap4Hal.Lib.Loop
import Omap4Hal.Lib.PageCover
import Omap4Hal.Procmgr.ProcMMU

/- The TLB entries of a region that is mapped into the MMU of a processor (procmgr/ProcMMU.c).
   `ProcMMU_addEntry` gives the driver one entry after the other, each of the largest page that
   the physical address is aligned to and that is not larger than what is left.

   The device address goes along with the physical address, and its alignment is not looked at.
   `addEntry_covers` says what the entries cover, and for which regions all device addresses
   are aligned to their pages. -/
namespace Omap4Hal.Procmgr.ProcMMU

open Lib

def pageSize16MB : UInt32 := 0x1000000

def pageSize1MB : UInt32 := 0x100000

def pageSize64KB : UInt32 := 0x10000

def pageSize4KB : UInt32 := 0x1000

/-- The page sizes that `ProcMMU_getEntrySize` tries, from the largest on. -/
def pagesize : List UInt32 := [pageSize16MB, pageSize1MB, pageSize64KB, pageSize4KB]

inductive PageType where
  | sectionPage
  | largePage
  | smallPage
  | superSection
  deriving DecidableEq, Repr

/-- `MMU_CAM_PGSZ_*`. -/
def PageType.pgsz : PageType → UInt32
  | .sectionPage => 0
  | .largePage => 1
  | .smallPage => 2
  | .superSection => 3

/-- The second half of `ProcMMU_getEntrySize`. `none` is `ProcMMU_E_INVALIDARG`. -/
def decideEntrySize (msize : UInt32) : Option (PageType × UInt32) :=
  if pageSize16MB ≤ msize then some (.superSection, pageSize16MB)
  else if pageSize1MB ≤ msize then some (.sectionPage, pageSize1MB)
  else if pageSize64KB ≤ msize then some (.largePage, pageSize64KB)
  else if pageSize4KB ≤ msize then some (.smallPage, pageSize4KB)
  else none

/-- The loop finds the largest page that the address is aligned to. -/
def getEntrySize (pa size : UInt32) : Option (PageType × UInt32) :=
  match pagesize.find? fun p => pa % p = 0 with
  | none => none
  | some page => decideEntrySize (if size < page then size else page)

structure TlbEntry where
  da : UInt32
  pa : UInt32
  pgsz : UInt32
  prsvd : UInt32 := 0x8
  valid : UInt32 := 0x4
  endian : UInt32 := 0
  elsz : UInt32 := 0x80
  mixed : UInt32 := 0x40
  deriving DecidableEq, Repr

/-- The driver that gets the entries of a processor. -/
def Proc.tlbDevice : Proc → Option Device
  | .appM3 => some .mpuM3
  | .sysM3 => some .mpuM3
  | .tesla => some .dsp
  | .other => none

/-- The variables of `ProcMMU_addEntry`, with the entries that drivers were given. -/
structure Mapping where
  physAddr : UInt32
  dspAddr : UInt32
  mappedSize : UInt32 := 0
  status : Int := 0
  issued : List (Device × TlbEntry) := []

/-- `ProcMMU_E_INVALIDARG`. -/
def invalidArg : Int := 0x8BABE001 - 0x100000000

/-- The call of `ioctl`; `answer` is what the driver returns after the calls it has had. -/
def Mapping.issue (answer : List (Device × TlbEntry) → Int) (s : Mapping) (proc : Proc)
    (e : TlbEntry) : Mapping :=
  match proc.tlbDevice with
  | some d =>
    { s with
      issued := s.issued ++ [(d, e)]
      status := answer (s.issued ++ [(d, e)]) }
  | none => { s with status := 0 }

def addPass (answer : List (Device × TlbEntry) → Int) (proc : Proc) (size : UInt32) (s : Mapping) :
    Flow Mapping :=
  if s.mappedSize < size ∧ s.status = 0 then
    match getEntrySize s.physAddr (size - s.mappedSize) with
    | none => .stop { s with status := invalidArg }
    | some (sizeTlb, entrySize) =>
      let s₁ := s.issue answer proc { da := s.dspAddr, pa := s.physAddr, pgsz := sizeTlb.pgsz }
      if s₁.status < 0 then .stop s₁
      else
        .next { s₁ with
          mappedSize := s.mappedSize + entrySize
          physAddr := s.physAddr + entrySize
          dspAddr := s.dspAddr + entrySize }
  else .stop s

/-- `ProcMMU_addEntry` with the number of passes it may make. -/
def addEntry (answer : List (Device × TlbEntry) → Int) (pa da size : UInt32) (proc : Proc)
    (n : Nat) : Option Mapping :=
  loop (addPass answer proc size) n { physAddr := pa, dspAddr := da }

/-! ## The page of an entry -/

/-- The sizes of the pages in bytes. -/
def tlbPages : List Nat := [0x1000, 0x10000, 0x100000, 0x1000000]

/-- The page size that the driver reads off an entry. -/
def TlbEntry.size (e : TlbEntry) : Nat :=
  if e.pgsz = 0 then 0x100000
  else if e.pgsz = 1 then 0x10000
  else if e.pgsz = 2 then 0x1000
  else 0x1000000

theorem tlbPages_sizes : PageSizes tlbPages := by
  constructor <;> decide

theorem mem_tlbPages {q : Nat} : q ∈ tlbPages ↔ ∃ p ∈ pagesize, p.toNat = q := by
  simp only [tlbPages, pagesize, pageSize16MB, pageSize1MB, pageSize64KB, pageSize4KB,
    List.mem_cons, List.not_mem_nil, or_false, exists_eq_or_imp, exists_eq_left, UInt32.reduceToNat]
  omega

/-- The address is aligned to the first page found, and to no larger one. -/
theorem find_pagesize {pa : UInt32} (hpa : 0x1000 ∣ pa.toNat) :
    ∃ page, pagesize.find? (fun p => pa % p = 0) = some page ∧ page.toNat ∈ tlbPages ∧
      page.toNat ∣ pa.toNat ∧ ∀ q ∈ tlbPages, q ∣ pa.toNat → q ≤ page.toNat := by
  have hdvd : ∀ p : UInt32, pa % p = 0 ↔ p.toNat ∣ pa.toNat := by
    intro p
    rw [← UInt32.toNat_inj, UInt32.toNat_mod, Nat.dvd_iff_mod_eq_zero]
    rfl
  have hsome : (pagesize.find? fun p => pa % p = 0).isSome := by
    rw [List.find?_isSome]
    refine ⟨pageSize4KB, by decide, ?_⟩
    rw [decide_eq_true_iff, hdvd]
    exact hpa
  obtain ⟨page, hpage⟩ := Option.isSome_iff_exists.mp hsome
  obtain ⟨hfound, before, after, hlist, hbefore⟩ := List.find?_eq_some_iff_append.mp hpage
  rw [decide_eq_true_iff, hdvd] at hfound
  have hmem := List.mem_of_find?_eq_some hpage
  refine ⟨page, hpage, mem_tlbPages.mpr ⟨page, hmem, rfl⟩, hfound, ?_⟩
  intro q hq hqdvd
  obtain ⟨p, hp, rfl⟩ := mem_tlbPages.mp hq
  have hsorted : pagesize.Pairwise fun x y => y.toNat ≤ x.toNat := by decide
  rw [hlist] at hp hsorted
  rcases List.mem_append.mp hp with hp | hp
  · have hno := hbefore p hp
    simp [(hdvd p).mpr hqdvd] at hno
  · rcases List.mem_cons.mp hp with rfl | hp
    · exact Nat.le_refl _
    · exact (List.pairwise_cons.mp (List.pairwise_append.mp hsorted).2.1).1 p hp

def PageType.bytes : PageType → UInt32
  | .sectionPage => pageSize1MB
  | .largePage => pageSize64KB
  | .smallPage => pageSize4KB
  | .superSection => pageSize16MB

theorem TlbEntry.size_of_pgsz {e : TlbEntry} {t : PageType} (h : e.pgsz = t.pgsz) :
    e.size = t.bytes.toNat := by
  rw [TlbEntry.size, h]
  cases t <;> rfl

theorem decideEntrySize_spec {msize : UInt32} (hmsize : 0x1000 ≤ msize.toNat) :
    ∃ t, decideEntrySize msize = some (t, t.bytes) ∧ t.bytes.toNat ≤ msize.toNat ∧
      ∀ q ∈ tlbPages, q ≤ msize.toNat → q ≤ t.bytes.toNat := by
  simp only [decideEntrySize, UInt32.le_iff_toNat_le, tlbPages, List.mem_cons, List.not_mem_nil,
    or_false, pageSize16MB, pageSize1MB, pageSize64KB, pageSize4KB, UInt32.reduceToNat]
  by_cases h16 : 0x1000000 ≤ msize.toNat
  · refine ⟨.superSection, if_pos h16, h16, ?_⟩
    rintro q (rfl | rfl | rfl | rfl) - <;> decide
  rw [if_neg h16]
  by_cases h1 : 0x100000 ≤ msize.toNat
  · refine ⟨.sectionPage, if_pos h1, h1, ?_⟩
    rintro q (rfl | rfl | rfl | rfl) hq
    · decide
    · decide
    · decide
    · exact absurd hq h16
  rw [if_neg h1]
  by_cases h64 : 0x10000 ≤ msize.toNat
  · refine ⟨.largePage, if_pos h64, h64, ?_⟩
    rintro q (rfl | rfl | rfl | rfl) hq
    · decide
    · decide
    · exact absurd hq h1
    · exact absurd hq h16
  rw [if_neg h64]
  refine ⟨.smallPage, if_pos hmsize, hmsize, ?_⟩
  rintro q (rfl | rfl | rfl | rfl) hq
  · decide
  · exact absurd hq h64
  · exact absurd hq h1
  · exact absurd hq h16

structure Chosen (pa size : UInt32) (p : Nat) : Prop where
  page : p ∈ tlbPages
  fits : PageFits pa.toNat size.toNat p
  largest : ∀ q ∈ tlbPages, PageFits pa.toNat size.toNat q → q ≤ p

theorem getEntrySize_chosen {pa size : UInt32} (hpa : 0x1000 ∣ pa.toNat)
    (hsize : 0x1000 ≤ size.toNat) :
    ∃ t, getEntrySize pa size = some (t, t.bytes) ∧ Chosen pa size t.bytes.toNat := by
  obtain ⟨page, hfind, hpage, hdvd, hlargest⟩ := find_pagesize hpa
  have hpages := tlbPages_sizes
  have hsmall : 0x1000 ≤ page.toNat := hlargest _ (by decide) hpa
  rw [getEntrySize, hfind]
  dsimp only
  generalize hmsize : (if size < page then size else page) = msize
  have hmin : msize.toNat = min size.toNat page.toNat := by
    rw [← hmsize]
    simp only [UInt32.lt_iff_toNat_lt]
    split
    next hlt => omega
    next hlt => omega
  obtain ⟨t, hdecide, hle, hmax⟩ := decideEntrySize_spec (show 0x1000 ≤ msize.toNat by omega)
  have ht : t.bytes.toNat ∈ tlbPages := by
    cases t <;> decide
  refine ⟨t, hdecide, ht, ⟨?_, by omega⟩, ?_⟩
  · exact (hpages.dvd _ ht _ hpage (by omega)).trans hdvd
  · intro q hq hfits
    have hle := hlargest q hq hfits.1
    have hle' := hfits.2
    exact hmax q hq (by omega)

/-! ## The entries of a region -/

def TlbEntry.block (e : TlbEntry) : Block := ⟨e.pa.toNat, e.size, true⟩

def Mapping.entries (s : Mapping) : List TlbEntry := s.issued.map Prod.snd

/-- The entries map the region: they cover it in order, from the physical address to the device
address that belongs to it, with pages that are physically aligned. -/
structure Covers (pa da size : Nat) (es : List TlbEntry) : Prop where
  tiles : Tiles pa (es.map TlbEntry.block) (pa + size)
  difference : ∀ e ∈ es, (e.da.toNat : Int) - e.pa.toNat = (da : Int) - pa
  pages : ∀ e ∈ es, e.size ∈ tlbPages
  physAligned : ∀ e ∈ es, e.size ∣ e.pa.toNat

def DspAligned (es : List TlbEntry) : Prop := ∀ e ∈ es, e.size ∣ e.da.toNat

/-- The region: both addresses and the size are multiples of the smallest page, and nothing
wraps around. -/
structure Region (pa da size : UInt32) : Prop where
  pa_dvd : 0x1000 ∣ pa.toNat
  da_dvd : 0x1000 ∣ da.toNat
  size_dvd : 0x1000 ∣ size.toNat
  pa_end : pa.toNat + size.toNat ≤ 2 ^ 32
  da_end : da.toNat + size.toNat ≤ 2 ^ 32

/-- What holds whenever a pass begins. -/
structure Progress (d : Device) (pa da size : UInt32) (s : Mapping) : Prop where
  status : s.status = 0
  mapped_le : s.mappedSize.toNat ≤ size.toNat
  mapped_dvd : 0x1000 ∣ s.mappedSize.toNat
  phys : s.physAddr = pa + s.mappedSize
  dsp : s.dspAddr = da + s.mappedSize
  device : ∀ x ∈ s.issued, x.1 = d
  tiles : Tiles pa.toNat (s.entries.map TlbEntry.block) (pa.toNat + s.mappedSize.toNat)
  greedy : GreedyPages tlbPages (pa.toNat + size.toNat) (s.entries.map TlbEntry.block)
  difference : ∀ e ∈ s.entries, (e.da.toNat : Int) - e.pa.toNat = (da.toNat : Int) - pa.toNat

section Loop

variable {answer : List (Device × TlbEntry) → Int} {proc : Proc} {d : Device}
  {pa da size : UInt32} {s : Mapping}

theorem mapped_toNat_add {x : UInt32} (hx : x.toNat + size.toNat ≤ 2 ^ 32)
    (hlt : s.mappedSize.toNat < size.toNat) :
    (x + s.mappedSize).toNat = x.toNat + s.mappedSize.toNat := by
  rw [UInt32.toNat_add]
  omega

/-- The entry of a pass. -/
def Mapping.entry (s : Mapping) (t : PageType) : TlbEntry :=
  { da := s.dspAddr, pa := s.physAddr, pgsz := t.pgsz }

@[simp] theorem Mapping.entry_block (s : Mapping) (t : PageType) :
    (s.entry t).block = ⟨s.physAddr.toNat, t.bytes.toNat, true⟩ := by
  rw [TlbEntry.block, TlbEntry.size_of_pgsz (e := s.entry t) rfl, Mapping.entry]

/-- The state after a pass that has mapped a page. -/
def Mapping.advance (s : Mapping) (d : Device) (t : PageType) : Mapping :=
  { physAddr := s.physAddr + t.bytes
    dspAddr := s.dspAddr + t.bytes
    mappedSize := s.mappedSize + t.bytes
    status := 0
    issued := s.issued ++ [(d, s.entry t)] }

theorem addPass_next (hanswer : ∀ issued, answer issued = 0) (hproc : proc.tlbDevice = some d)
    (hstatus : s.status = 0) (hlt : s.mappedSize < size) {t : PageType}
    (hentry : getEntrySize s.physAddr (size - s.mappedSize) = some (t, t.bytes)) :
    addPass answer proc size s = .next (s.advance d t) := by
  rw [addPass, if_pos ⟨hlt, hstatus⟩, hentry]
  simp only [Mapping.issue, hproc, hanswer]
  rfl

theorem addPass_progress (hanswer : ∀ issued, answer issued = 0) (hproc : proc.tlbDevice = some d)
    (hregion : Region pa da size) (h : Progress d pa da size s)
    (hlt : s.mappedSize.toNat < size.toNat) :
    ∃ s', addPass answer proc size s = .next s' ∧ Progress d pa da size s' ∧
      size.toNat - s'.mappedSize.toNat < size.toNat - s.mappedSize.toNat := by
  have hphys : s.physAddr.toNat = pa.toNat + s.mappedSize.toNat := by
    rw [h.phys, mapped_toNat_add hregion.pa_end hlt]
  have hdsp : s.dspAddr.toNat = da.toNat + s.mappedSize.toNat := by
    rw [h.dsp, mapped_toNat_add hregion.da_end hlt]
  have hleft : (size - s.mappedSize).toNat = size.toNat - s.mappedSize.toNat :=
    UInt32.toNat_sub_of_le _ _ (UInt32.le_iff_toNat_le.mpr hlt.le)
  have hpa := hregion.pa_dvd
  have hsize := hregion.size_dvd
  have hmapped := h.mapped_dvd
  have hdvd : 0x1000 ∣ s.physAddr.toNat := by omega
  have hroom : 0x1000 ≤ (size - s.mappedSize).toNat := by omega
  obtain ⟨t, hentry, hpage, hfits, hlargest⟩ := getEntrySize_chosen hdvd hroom
  have hle := hfits.2
  have hpages := tlbPages_sizes
  have hdvd : 0x1000 ∣ t.bytes.toNat := hpages.dvd _ (by decide) _ hpage (by cases t <;> decide)
  have hpos : 0 < t.bytes.toNat := hpages.pos _ hpage
  have hnew : (s.mappedSize + t.bytes).toNat = s.mappedSize.toNat + t.bytes.toNat := by
    have hsize := size.toNat_lt
    rw [UInt32.toNat_add]
    omega
  have hentries : (s.advance d t).entries = s.entries ++ [s.entry t] := by
    simp [Mapping.advance, Mapping.entries]
  have hgo := UInt32.lt_iff_toNat_lt.mpr hlt
  refine ⟨s.advance d t, addPass_next hanswer hproc h.status hgo hentry, ?_, ?_⟩
  · refine ⟨rfl, ?_, ?_, ?_, ?_, ?_, ?_, ?_, ?_⟩
    · simp only [Mapping.advance, hnew]
      omega
    · simp only [Mapping.advance, hnew]
      omega
    · rw [Mapping.advance, h.phys, UInt32.add_assoc]
    · rw [Mapping.advance, h.dsp, UInt32.add_assoc]
    · intro x hx
      rcases List.mem_append.mp hx with hx | hx
      · exact h.device x hx
      · rw [List.mem_singleton.mp hx]
    · rw [hentries, List.map_append, tiles_append]
      refine ⟨_, h.tiles, ?_⟩
      simp only [List.map_singleton, Mapping.entry_block, Tiles, Mapping.advance, hnew, hphys,
        Nat.add_assoc, and_self]
    · rw [hentries, List.map_append]
      intro b hb
      rcases List.mem_append.mp hb with hb | hb
      · exact h.greedy b hb
      · rw [List.map_singleton, List.mem_singleton, Mapping.entry_block] at hb
        have hend : pa.toNat + size.toNat - s.physAddr.toNat = (size - s.mappedSize).toNat := by
          omega
        rw [hb, hend]
        exact ⟨hpage, hfits, hlargest⟩
    · rw [hentries]
      intro e he
      rcases List.mem_append.mp he with he | he
      · exact h.difference e he
      · rw [List.mem_singleton.mp he]
        simp only [Mapping.entry]
        omega
  · simp only [Mapping.advance, hnew]
    omega

theorem addPass_done (h : ¬ s.mappedSize < size) : addPass answer proc size s = .stop s :=
  if_neg fun hgo => h hgo.1

theorem addEntry_progress (hanswer : ∀ issued, answer issued = 0) (hproc : proc.tlbDevice = some d)
    (hregion : Region pa da size) :
    ∃ s, Gives (addEntry answer pa da size proc) s ∧ Progress d pa da size s ∧
      s.mappedSize = size := by
  have hinit : Progress d pa da size { physAddr := pa, dspAddr := da } := by
    refine ⟨rfl, Nat.zero_le _, Nat.dvd_zero _, ?_, ?_, nofun, rfl, nofun, nofun⟩
    · exact (UInt32.add_zero pa).symm
    · exact (UInt32.add_zero da).symm
  have hbody : ∀ s, Progress d pa da size s →
      (∃ t, addPass answer proc size s = .stop t ∧
        (Progress d pa da size t ∧ t.mappedSize = size)) ∨
      ∃ s', addPass answer proc size s = .next s' ∧ Progress d pa da size s' ∧
        size.toNat - s'.mappedSize.toNat < size.toNat - s.mappedSize.toNat := by
    intro s h
    rcases Nat.lt_or_eq_of_le h.mapped_le with hlt | heq
    · exact Or.inr (addPass_progress hanswer hproc hregion h hlt)
    · refine Or.inl ⟨s, addPass_done ?_, h, UInt32.toNat_inj.mp heq⟩
      rw [UInt32.lt_iff_toNat_lt]
      omega
  obtain ⟨s, hloop, hs⟩ := loop_total hbody hinit (Nat.lt_succ_self _)
  exact ⟨s, gives_loop hloop, hs⟩

end Loop

/-- The pages that are physically aligned are aligned at the device where both addresses are
congruent. -/
theorem dvd_da_iff {pa da : Nat} {e : TlbEntry} (hphys : e.size ∣ e.pa.toNat)
    (hdiff : (e.da.toNat : Int) - e.pa.toNat = (da : Int) - pa) :
    e.size ∣ e.da.toNat ↔ pa ≡ da [MOD e.size] := by
  rw [← Int.natCast_dvd_natCast] at hphys ⊢
  rw [Nat.modEq_iff_dvd, ← hdiff]
  constructor
  · intro hda
    exact Int.dvd_sub hda hphys
  · intro hsub
    exact (Int.dvd_iff_dvd_of_dvd_sub hsub).mpr hphys

theorem Progress.covers {d : Device} {pa da size : UInt32} {s : Mapping}
    (h : Progress d pa da size s) (hend : s.mappedSize = size) :
    Covers pa.toNat da.toNat size.toNat s.entries := by
  have hblock : ∀ e ∈ s.entries, e.block ∈ s.entries.map TlbEntry.block :=
    fun e he => List.mem_map_of_mem he
  refine ⟨hend ▸ h.tiles, h.difference, ?_, ?_⟩
  · intro e he
    exact (h.greedy _ (hblock e he)).1
  · intro e he
    exact (h.greedy _ (hblock e he)).2.1.1

/-- The entries cover the region, and their device addresses are aligned where no page that lies
in the region at its physical address has another offset in the region at the device. -/
theorem addEntry_covers {answer : List (Device × TlbEntry) → Int}
    (hanswer : ∀ issued, answer issued = 0) {proc : Proc} {d : Device}
    (hproc : proc.tlbDevice = some d) {pa da size : UInt32} (hregion : Region pa da size) :
    ∃ s, Gives (addEntry answer pa da size proc) s ∧ s.status = 0 ∧
      (∀ x ∈ s.issued, x.1 = d) ∧ Covers pa.toNat da.toNat size.toNat s.entries ∧
      (∀ e ∈ s.entries, e.size ∣ e.da.toNat ↔ pa.toNat ≡ da.toNat [MOD e.size]) ∧
      (DspAligned s.entries ↔ ∀ p ∈ tlbPages, PageWithin pa.toNat (pa.toNat + size.toNat) p →
        pa.toNat ≡ da.toNat [MOD p]) := by
  obtain ⟨s, hgives, h, hend⟩ := addEntry_progress hanswer hproc hregion
  have hcovers := h.covers hend
  have haligned : ∀ e ∈ s.entries, e.size ∣ e.da.toNat ↔ pa.toNat ≡ da.toNat [MOD e.size] :=
    fun e he => dvd_da_iff (hcovers.physAligned e he) (hcovers.difference e he)
  refine ⟨s, hgives, h.status, h.device, hcovers, haligned, ?_⟩
  rw [← h.greedy.forall_modEq_iff tlbPages_sizes hcovers.tiles, List.forall_mem_map]
  exact forall₂_congr haligned

/-- A region that has pages of 64 KB, at addresses that differ by small pages. -/
theorem addEntry_covers_large :
    ∃ s, Gives (addEntry (fun _ => 0) 0x30000 0x41000 0x110000 .tesla) s ∧ s.status = 0 ∧
      (∀ x ∈ s.issued, x.1 = .dsp) ∧ Covers 0x30000 0x41000 0x110000 s.entries ∧
      (∀ e ∈ s.entries, e.size ∣ e.da.toNat ↔ 0x30000 ≡ 0x41000 [MOD e.size]) ∧
      (DspAligned s.entries ↔ ∀ p ∈ tlbPages, PageWithin 0x30000 (0x30000 + 0x110000) p →
        0x30000 ≡ 0x41000 [MOD p]) :=
  addEntry_covers (fun _ => rfl) rfl
    (show Region 0x30000 0x41000 0x110000 from
      ⟨by decide, by decide, by decide, by decide, by decide⟩)

/-- One page of 1 MB at an address that has the alignment of a small page only at the device; and
a processor without a driver, for which no entry is made. -/
theorem addEntry_misaligned :
    (Region 0x100000 0x1000 0x100000 ∧
      ¬ ∃ s, Gives (addEntry (fun _ => 0) 0x100000 0x1000 0x100000 .tesla) s ∧
        DspAligned s.entries) ∧
    Region 0x1000 0x1000 0x1000 ∧
      ¬ ∃ s, Gives (addEntry (fun _ => 0) 0x1000 0x1000 0x1000 .other) s ∧
        Covers 0x1000 0x1000 0x1000 s.entries := by
  refine ⟨⟨⟨by decide, by decide, by decide, by decide, by decide⟩, ?_⟩,
    ⟨by decide, by decide, by decide, by decide, by decide⟩, ?_⟩
  · rintro ⟨s, hgives, haligned⟩
    have hrun : addEntry (fun _ => 0) 0x100000 0x1000 0x100000 .tesla 2 = some
        { physAddr := 0x200000, dspAddr := 0x101000, mappedSize := 0x100000
          issued := [(.dsp, { da := 0x1000, pa := 0x100000, pgsz := 0 })] } := rfl
    obtain rfl := hgives.unique _ _ hrun
    have hdvd := haligned { da := 0x1000, pa := 0x100000, pgsz := 0 } (by decide)
    revert hdvd
    decide
  · rintro ⟨s, hgives, hcovers⟩
    have hrun : addEntry (fun _ => 0) 0x1000 0x1000 0x1000 .other 2 = some
        { physAddr := 0x2000, dspAddr := 0x2000, mappedSize := 0x1000 } := rfl
    obtain rfl := hgives.unique _ _ hrun
    exact absurd hcovers.tiles (by simp [Tiles, Mapping.entries])

end Omap4Hal.Procmgr.ProcMMU

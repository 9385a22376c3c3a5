import Omap4Hal.Elfload.FileReading

/- What an accepted file is known to be (`is_valid_elf_object_file`). It should be an ELF file whose
   tables lie in it and refer to what lies in them.

   The check of the magic number never fails. The places of the tables, the end of the dynamic
   table and the names are not checked, nor is the result of any read; the sum of an offset and a
   size is one of 32 bits. `sound_iff` is what has to hold of a file beside the checks. -/
namespace Omap4Hal.Elfload.Reading

open List (range replicate)

/-! ## A sound file -/

/-- `n` bytes of the file, from an offset on. -/
def Inside (fd : LoaderFile) (offset n : Nat) : Prop := n = 0 ∨ offset + n ≤ fd.content.length

/-- The bytes of the file. -/
def LoaderFile.image (fd : LoaderFile) : Memory := fun k => fd.content.getD k 0#8

/-- The tables of a dynamic segment, in the file. -/
structure DynamicSound (fd : LoaderFile) (wrongEndian : Bool) (d : Dynamic) : Prop where
  strings : Inside fd d.tags.strtabOffset.toNat d.tags.strsz.toNat
  symbols : Inside fd d.tags.symtabOffset.toNat (16 * d.symnum.toNat)
  terminated : ∃ i, 8 * i + 8 ≤ d.segment.pFilesz.toNat ∧
    wordAt fd.image (d.segment.pOffset.toNat + 8 * i) = 0#32
  soname : ∀ off ∈ d.tags.sonameOffset, off.toNat < d.tags.strsz.toNat
  names : ∀ j < d.symnum.toNat,
    (endian32 wrongEndian
      (wordAt fd.image (d.tags.symtabOffset.toNat + 16 * j))).toNat < d.tags.strsz.toNat

structure Sound (fd : LoaderFile) (m : Module) : Prop where
  magic : m.fhdr.eIdent.take 4 = elfMagic
  segments : ∀ h ∈ m.phdr, h.pOffset.toNat + h.pFilesz.toNat ≤ fd.content.length
  headers : m.phdr ≠ [] → Inside fd m.fhdr.ePhoff.toNat m.fhdr.tableSize
  dynamic : ∀ d ∈ m.dynamic, DynamicSound fd m.fhdr.wrongEndian d

/-! ## What has to be known beside the checks -/

/-- `DLIF_fseek` to the offset succeeds, and `DLIF_fread` of `n` bytes then gives them all. -/
def Complete (fd : LoaderFile) (offset : Word) (n : Nat) : Prop :=
  n = 0 ∨ 0 ≤ offset.toInt ∧ (fd.fread (fseek offset 0) n).length = n

structure DynamicIntact (fd : LoaderFile) (d : Dynamic) : Prop where
  strings : Complete fd d.tags.strtabOffset d.tags.strsz.toNat
  symbols : Complete fd d.tags.symtabOffset (16 * d.symnum.toNat)
  terminated : ∃ i < d.segment.numElem, (d.dyntab i).dTag = 0#32
  soname : ∀ off ∈ d.tags.sonameOffset, off.toNat < d.tags.strsz.toNat
  names : ∀ name ∈ d.stName, name.toNat < d.tags.strsz.toNat

structure Intact (fd : LoaderFile) (m : Module) : Prop where
  magic : m.fhdr.eIdent.take 4 = elfMagic
  noWrap : ∀ h ∈ m.phdr, h.pOffset.toNat + h.pFilesz.toNat < 2 ^ 32
  headers : m.phdr ≠ [] → Complete fd m.fhdr.ePhoff m.fhdr.tableSize
  dynamic : ∀ d ∈ m.dynamic, DynamicIntact fd d

/-! ## Reads -/

section Reads
variable {fd : LoaderFile} {offset : Word} {n : Nat}

theorem fseek_eq (h : offset.toNat < 2 ^ 31) (pos : Nat) : fseek offset pos = offset.toNat := by
  rw [fseek, if_neg]
  rw [BitVec.toInt_eq_toNat_of_lt (by omega)]
  omega

theorem fread_length (pos n : Nat) :
    (fd.fread pos n).length = min n (fd.content.length - pos) := by
  rw [LoaderFile.fread, List.length_take, List.length_drop]

theorem complete_iff : Complete fd offset n ↔ Inside fd offset.toNat n := by
  have hsize := fd.size_lt
  rw [Complete, Inside]
  by_cases hn : n = 0
  · exact iff_of_true (.inl hn) (.inl hn)
  rw [or_iff_right hn, or_iff_right hn, fread_length]
  constructor
  · rintro ⟨hseek, hread⟩
    have hpos : fseek offset 0 = offset.toNat := if_neg (by omega)
    rw [hpos] at hread
    omega
  · intro hin
    have hoffset : offset.toNat < 2 ^ 31 := by omega
    rw [fseek_eq hoffset, BitVec.toInt_eq_toNat_of_lt (by omega)]
    omega

theorem fill_fread (hin : offset.toNat + n ≤ fd.content.length) (pos : Nat) (memory : Memory)
    {k : Nat} (hk : k < n) :
    fill (fd.fread (fseek offset pos) n) memory k = fd.image (offset.toNat + k) := by
  have hsize := fd.size_lt
  rw [fill, fseek_eq (by omega), LoaderFile.fread, List.getElem?_take_of_lt hk,
    List.getElem?_drop, LoaderFile.image, List.getD_eq_getElem?_getD,
    List.getElem?_eq_getElem (by omega)]
  rfl

theorem wordAt_fread (hin : offset.toNat + n ≤ fd.content.length) (pos : Nat) (memory : Memory)
    {k : Nat} (hk : k + 4 ≤ n) : wordAt (fill (fd.fread (fseek offset pos) n) memory) k =
      wordAt fd.image (offset.toNat + k) := by
  rw [wordAt, fill_fread hin pos memory (by omega), fill_fread hin pos memory (by omega),
    fill_fread hin pos memory (by omega), fill_fread hin pos memory (by omega)]
  rfl

end Reads

theorem endian32_eq_zero {wrongEndian : Bool} {v : Word} :
    endian32 wrongEndian v = 0#32 ↔ v = 0#32 := by
  cases wrongEndian with
  | false => exact Iff.rfl
  | true =>
    constructor
    · intro h
      rw [← changeEndian32_changeEndian32 v]
      show changeEndian32 (endian32 true v) = 0#32
      rw [h]
      rfl
    · rintro rfl
      rfl

/-! ## What a load leaves -/

/-- The tables of a module are what was read from the places given. -/
structure FromFile (fd : LoaderFile) (wrongEndian : Bool) (d : Dynamic) : Prop where
  dyntab : ∃ pos memory, d.dyntab = dynAt wrongEndian
    (fill (fd.fread (fseek d.segment.pOffset pos) (8 * d.segment.numElem)) memory)
      d.segment.numElem
  stName : ∃ pos memory, d.stName = (range d.symnum.toNat).map fun j =>
    endian32 wrongEndian
      (wordAt (fill (fd.fread (fseek d.tags.symtabOffset pos) (symtabSize d.symnum)) memory)
        (16 * j))

variable {fd : LoaderFile}

theorem processDynamicTable_fromFile {n : Nat} {host : Host} {fhdr : Ehdr} {segment : Phdr}
    {dyntab : Nat → Dyn} {pos : Nat} {d : Dynamic}
    (h : processDynamicTable n fd host fhdr segment dyntab pos = some d) :
    d.segment = segment ∧ d.dyntab = dyntab ∧
      ∃ pos memory, d.stName = (range d.symnum.toNat).map fun j =>
        endian32 fhdr.wrongEndian
          (wordAt (fill (fd.fread (fseek d.tags.symtabOffset pos) (symtabSize d.symnum)) memory)
            (16 * j)) := by
  rw [processDynamicTable] at h
  split at h
  next => cases h
  next entries _ =>
    dsimp only at h
    obtain ⟨-, h⟩ := Option.ite_none_left_eq_some.mp h
    split at h
    next => cases h
    next strMemory _ =>
      obtain ⟨-, h⟩ := Option.ite_none_left_eq_some.mp h
      obtain ⟨-, h⟩ := Option.ite_none_left_eq_some.mp h
      split at h
      next => cases h
      next symMemory _ =>
        split at h
        next => cases h
        next name _ =>
          obtain ⟨-, h⟩ := Option.ite_none_right_eq_some.mp h
          cases h
          exact ⟨rfl, rfl, _, symMemory, rfl⟩

theorem dloadDynamicSegment_fromFile {n : Nat} {host : Host} {fhdr : Ehdr} {phdr : List Phdr}
    {pos : Nat} {d : Dynamic} (h : dloadDynamicSegment n fd host fhdr phdr pos = some (some d)) :
    d.segment ∈ phdr ∧ FromFile fd fhdr.wrongEndian d := by
  rw [dloadDynamicSegment] at h
  split at h
  next => cases h
  next segment hfind =>
    obtain ⟨-, h⟩ := Option.ite_none_right_eq_some.mp h
    split at h
    next => cases h
    next d' hd =>
      obtain ⟨-, h⟩ := Option.ite_none_left_eq_some.mp h
      cases Option.some.inj h
      rw [dloadDynamicInformation] at hd
      split at hd
      next => cases hd
      next memory _ =>
        obtain ⟨hsegment, hdyntab, hnames⟩ := processDynamicTable_fromFile hd
        refine ⟨hsegment ▸ List.mem_of_find?_eq_some hfind, ?_, hnames⟩
        exact ⟨pos, memory, by rw [hdyntab, hsegment]⟩

theorem accept_spec {n : Nat} {host : Host} {m : Module} (h : accept n fd host = some m) :
    isValidElfObjectFile fd m = true ∧
      ∀ d ∈ m.dynamic, d.segment ∈ m.phdr ∧ FromFile fd m.fhdr.wrongEndian d := by
  rw [accept] at h
  split at h
  next => cases h
  next fhdr pos _ =>
    dsimp only at h
    split at h
    next => cases h
    next dynamic hdynamic =>
      obtain ⟨-, h⟩ := Option.ite_none_left_eq_some.mp h
      obtain ⟨hvalid, h⟩ := Option.ite_none_right_eq_some.mp h
      cases h
      refine ⟨hvalid, ?_⟩
      intro d hd
      apply dloadDynamicSegment_fromFile
      rw [hdynamic]
      exact congrArg some hd

section Dynamic
variable {fd : LoaderFile} {wrongEndian : Bool} {d : Dynamic} (hfrom : FromFile fd wrongEndian d)
include hfrom

theorem terminated_iff
    (hseg : d.segment.pOffset.toNat + d.segment.pFilesz.toNat ≤ fd.content.length) :
    (∃ i, 8 * i + 8 ≤ d.segment.pFilesz.toNat ∧
      wordAt fd.image (d.segment.pOffset.toNat + 8 * i) = 0#32) ↔
      ∃ i < d.segment.numElem, (d.dyntab i).dTag = 0#32 := by
  obtain ⟨pos, memory, hdyntab⟩ := hfrom.dyntab
  have hdiv : d.segment.numElem = d.segment.pFilesz.toNat / 8 := rfl
  apply exists_congr
  intro i
  have hbound : 8 * i + 8 ≤ d.segment.pFilesz.toNat ↔ i < d.segment.numElem := by omega
  rw [hbound]
  apply and_congr_right
  intro hi
  rw [hdyntab]
  show _ ↔ endian32 _ (wordAt (fill _ memory) (8 * i)) = 0#32
  rw [endian32_eq_zero, wordAt_fread (by omega) pos memory (by omega)]

theorem names_iff (hsymbols : Inside fd d.tags.symtabOffset.toNat (16 * d.symnum.toNat)) :
    (∀ j < d.symnum.toNat, (endian32 wrongEndian
      (wordAt fd.image (d.tags.symtabOffset.toNat + 16 * j))).toNat < d.tags.strsz.toNat) ↔
      ∀ name ∈ d.stName, name.toNat < d.tags.strsz.toNat := by
  obtain ⟨pos, memory, hnames⟩ := hfrom.stName
  rw [hnames, List.forall_mem_map]
  apply forall_congr'
  intro j
  rw [List.mem_range]
  apply imp_congr_right
  intro hj
  have hsize := fd.size_lt
  have hin : d.tags.symtabOffset.toNat + 16 * d.symnum.toNat ≤ fd.content.length := by
    rcases hsymbols with h | h
    · omega
    · exact h
  have hproduct : symtabSize d.symnum = 16 * d.symnum.toNat := by
    rw [symtabSize, BitVec.toNat_mul]
    show d.symnum.toNat * 16 % 2 ^ 32 = _
    omega
  rw [hproduct, wordAt_fread hin pos memory (by omega)]

theorem dynamic_sound_iff
    (hseg : d.segment.pOffset.toNat + d.segment.pFilesz.toNat ≤ fd.content.length) :
    DynamicSound fd wrongEndian d ↔ DynamicIntact fd d := by
  constructor
  · intro h
    exact {
      strings := complete_iff.mpr h.strings
      symbols := complete_iff.mpr h.symbols
      terminated := (terminated_iff hfrom hseg).mp h.terminated
      soname := h.soname
      names := (names_iff hfrom h.symbols).mp h.names }
  · intro h
    have hsymbols := complete_iff.mp h.symbols
    exact {
      strings := complete_iff.mp h.strings
      symbols := hsymbols
      terminated := (terminated_iff hfrom hseg).mpr h.terminated
      soname := h.soname
      names := (names_iff hfrom hsymbols).mpr h.names }

end Dynamic

theorem segment_iff {h : Phdr} (hvalid : h.isValid fd.content.length) :
    h.pOffset.toNat + h.pFilesz.toNat ≤ fd.content.length ↔
      h.pOffset.toNat + h.pFilesz.toNat < 2 ^ 32 := by
  have hsize := fd.size_lt
  have hsum := hvalid.2
  rw [BitVec.toNat_add] at hsum
  constructor
  · intro hin
    omega
  · intro hwrap
    rw [Nat.mod_eq_of_lt hwrap] at hsum
    omega

/-- A static executable for ARM without program headers. -/
def emptyExecutable (magic : List Byte) : List Byte :=
  magic ++ [1#8, 1#8] ++ replicate 10 0#8 ++ [2#8, 0#8, 40#8, 0#8] ++ replicate 32 0#8

def fileOf (content : List Byte) (h : content.length < 2 ^ 31 := by decide) : LoaderFile :=
  ⟨content, h⟩

/-- A host with memory for everything, zero before it is used. -/
def zeroHost : Host where
  fhdr := fun _ => 0#8
  phdr := some fun _ => 0#8
  dyntab := some fun _ => 0#8
  strtab := some fun _ => 0#8
  hash := fun _ => 0#8
  symtab := some fun _ => 0#8
  nameSpace := true
  targetMachine := 0#16
  moduleDependencyList := []

/-- A shared object for ARM: two program headers, the dynamic table, the strings, the hash table
and two symbols. -/
def sharedObject : LoaderFile where
  content := elfMagic ++ [1, 1, 1] ++ replicate 9 0 ++ [3, 0, 40, 0, 1, 0, 0, 0, 0, 0, 0, 0] ++
    [52, 0, 0, 0, 0, 0, 0, 0, 0, 0, 0, 0, 52, 0, 32, 0, 2, 0, 0, 0, 0, 0, 0, 0] ++
    [1, 0, 0, 0] ++ replicate 12 0 ++ [212, 0, 0, 0, 212, 0, 0, 0] ++ replicate 8 0 ++
    [2, 0, 0, 0, 116] ++ replicate 11 0 ++ [48, 0, 0, 0, 48, 0, 0, 0] ++ replicate 8 0 ++
    [5, 0, 0, 0, 164, 0, 0, 0, 10, 0, 0, 0, 8, 0, 0, 0, 4, 0, 0, 0, 172, 0, 0, 0] ++
    [6, 0, 0, 0, 180, 0, 0, 0, 14, 0, 0, 0, 1, 0, 0, 0, 0, 0, 0, 0, 0, 0, 0, 0] ++
    [0, 97, 0, 102, 0, 0, 0, 0] ++ [1, 0, 0, 0, 2, 0, 0, 0] ++
    replicate 16 0 ++ [3] ++ replicate 16 0
  size_lt := by decide +kernel

end Omap4Hal.Elfload.Reading

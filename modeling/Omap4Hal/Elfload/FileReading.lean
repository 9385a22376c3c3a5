import Omap4Hal.Elfload.Endian

/- Reading an object file (`dload_headers`, `dload_dynamic_segment` and `is_valid_elf_object_file`
   of `dload.c`, in the order of `DLOAD_load`).

   What the loader has in host memory after a read is what the file had, and behind it what was
   there before: the results of `DLIF_fseek` and `DLIF_fread` are not looked at. Host memory is a
   function from the address in a buffer to a byte, also beyond the end of the buffer. A function
   has no result when it fails, when it follows a null pointer, and when it runs through memory
   without end. The host is little-endian. -/
namespace Omap4Hal.Elfload.Reading

abbrev Byte := BitVec 8

/-- A buffer, with what follows it. -/
abbrev Memory := Nat → Byte

/-! ## The file and the host -/

/-- An open file. `fopen` opens none whose size is no `long`. -/
structure LoaderFile where
  content : List Byte
  size_lt : content.length < 2 ^ 31

/-- What the host brings to a load: the memory behind each buffer, none if `DLIF_malloc` fails,
the target machine of the loader and the names of the modules that are being loaded. -/
structure Host where
  fhdr : Memory
  phdr : Option Memory
  dyntab : Option Memory
  strtab : Option Memory
  hash : Memory
  symtab : Option Memory
  /-- There is memory for the name of the module. -/
  nameSpace : Bool
  targetMachine : Half
  moduleDependencyList : List (List Byte)

/-- `DLIF_fseek` from the start. A negative offset leaves the position as it is. -/
def fseek (offset : Word) (pos : Nat) : Nat := if offset.toInt < 0 then pos else offset.toNat

/-- `DLIF_fread` of `n` bytes: those that there are. -/
def LoaderFile.fread (fd : LoaderFile) (pos n : Nat) : List Byte := (fd.content.drop pos).take n

/-- A buffer after a read. -/
def fill (bytes : List Byte) (memory : Memory) : Memory := fun k => bytes[k]?.getD (memory k)

def halfAt (memory : Memory) (k : Nat) : Half := memory (k + 1) ++ memory k

def wordAt (memory : Memory) (k : Nat) : Word :=
  memory (k + 3) ++ memory (k + 2) ++ memory (k + 1) ++ memory k

/-- A field of the file, which may have the other byte order. -/
def endian16 (wrongEndian : Bool) (v : Half) : Half := if wrongEndian then changeEndian16 v else v

def endian32 (wrongEndian : Bool) (v : Word) : Word := if wrongEndian then changeEndian32 v else v

/-! ## The headers -/

structure Ehdr where
  eIdent : List Byte
  eType : Half
  eMachine : Half
  ePhoff : Word
  ePhentsize : Half
  ePhnum : Half
  deriving DecidableEq, Repr

structure Phdr where
  pType : Word
  pOffset : Word
  pFilesz : Word
  pMemsz : Word
  deriving DecidableEq, Repr

/-- ELFDATA2LSB, the answer of `DLIMP_get_endian`. -/
def getEndian : Byte := 1#8

def emArm : Half := 40#16
def emTiC6000 : Half := 140#16

def etExec : Half := 2#16

def etDyn : Half := 3#16

def Ehdr.ident (h : Ehdr) (k : Nat) : Byte := h.eIdent.getD k 0#8

def Ehdr.wrongEndian (h : Ehdr) : Bool := h.ident 5 != getEndian

/-- The header in memory, in the byte order of the host. -/
def ehdrAt (memory : Memory) : Ehdr :=
  let wrongEndian := memory 5 != getEndian
  { eIdent := (List.range 16).map memory
    eType := endian16 wrongEndian (halfAt memory 16)
    eMachine := endian16 wrongEndian (halfAt memory 18)
    ePhoff := endian32 wrongEndian (wordAt memory 28)
    ePhentsize := endian16 wrongEndian (halfAt memory 42)
    ePhnum := endian16 wrongEndian (halfAt memory 44) }

/-- `!x` in C. -/
def logicalNot (x : Byte) : Byte := if x = 0#8 then 1#8 else 0#8

/-- ELFMAG0 to ELFMAG3 -/
def elfMagic : List Byte := [0x7F#8, 0x45#8, 0x4C#8, 0x46#8]

/-- `file_header_magic_number_is_valid`, which compares the negation of each byte. -/
def fileHeaderMagicNumberIsValid (header : Ehdr) : Bool :=
  !(logicalNot (header.ident 0) == 0x7F#8 || logicalNot (header.ident 1) == 0x45#8 ||
    logicalNot (header.ident 2) == 0x4C#8 || logicalNot (header.ident 3) == 0x46#8)

/-- `file_header_machine_is_valid`. EM_NONE is 0. -/
def fileHeaderMachineIsValid (targetMachine eMachine : Half) : Bool :=
  targetMachine == 0#16 || eMachine == targetMachine

/-- `dload_file_header`, with the position in the file. -/
def dloadFileHeader (fd : LoaderFile) (host : Host) : Option (Ehdr × Nat) :=
  let bytes := fd.fread 0 52
  let header := ehdrAt (fill bytes host.fhdr)
  if fileHeaderMagicNumberIsValid header = true ∧
      fileHeaderMachineIsValid host.targetMachine header.eMachine = true ∧
      (header.eType = etExec ∨ header.eType = etDyn) then
    some (header, bytes.length)
  else none

def phdrAt (wrongEndian : Bool) (memory : Memory) (k : Nat) : Phdr where
  pType := endian32 wrongEndian (wordAt memory k)
  pOffset := endian32 wrongEndian (wordAt memory (k + 4))
  pFilesz := endian32 wrongEndian (wordAt memory (k + 16))
  pMemsz := endian32 wrongEndian (wordAt memory (k + 20))

/-- The size of the table that is read, as the file header has it. -/
def Ehdr.tableSize (h : Ehdr) : Nat := h.ePhentsize.toNat * h.ePhnum.toNat

/-- `dload_program_header_table`. The entries are those of an array, whatever `e_phentsize` is. -/
def dloadProgramHeaderTable (fd : LoaderFile) (host : Host) (fhdr : Ehdr) (pos : Nat) :
    List Phdr × Nat :=
  let pos := fseek fhdr.ePhoff pos
  match host.phdr with
  | none => ([], pos)
  | some memory =>
    let bytes := fd.fread pos fhdr.tableSize
    ((List.range fhdr.ePhnum.toNat).map fun i =>
        phdrAt fhdr.wrongEndian (fill bytes memory) (32 * i),
      pos + bytes.length)

/-! ## The dynamic segment -/

structure Dyn where
  dTag : Word
  dVal : Word
  deriving DecidableEq, Repr

/-- What `process_dynamic_table` takes from the tags. -/
structure Tags where
  sonameOffset : Option Word := none
  strsz : Word := 0#32
  strtabOffset : Word := 0#32
  hashOffset : Word := 0#32
  symtabOffset : Word := 0#32
  deriving DecidableEq, Repr

/-- What is known of a module with a dynamic segment. `stName`: the offsets of the names of the
symbols. -/
structure Dynamic where
  segment : Phdr
  dyntab : Nat → Dyn
  tags : Tags
  symnum : Word
  stName : List Word
  name : List Byte

def ptDynamic : Word := 2#32

def ptLoad : Word := 1#32

/-- The entries of the table of a dynamic segment. -/
def Phdr.numElem (h : Phdr) : Nat := h.pFilesz.toNat / 8

/-- `process_eiosabi` of a module with a dynamic segment: ELFOSABI_NONE for ARM,
ELFOSABI_C6000_ELFABI for the C6000. -/
def processEiosabi (fhdr : Ehdr) : Bool :=
  if fhdr.eMachine = emArm then fhdr.ident 7 == 0#8
  else if fhdr.eMachine = emTiC6000 then fhdr.ident 7 == 64#8
  else false

/-- Entry `i` behind the address of the table. The bytes are swapped up to `num_elem`. -/
def dynAt (wrongEndian : Bool) (memory : Memory) (numElem i : Nat) : Dyn :=
  let wrongEndian := wrongEndian && decide (i < numElem)
  { dTag := endian32 wrongEndian (wordAt memory (8 * i))
    dVal := endian32 wrongEndian (wordAt memory (8 * i + 4)) }

/-- The entries up to DT_NULL, among `n` from the entry `i` on. -/
def entriesFrom (dyntab : Nat → Dyn) : Nat → Nat → Option (List Dyn)
  | 0, _ => none
  | n + 1, i =>
    if (dyntab i).dTag = 0#32 then some []
    else (entriesFrom dyntab n (i + 1)).map (dyntab i :: ·)

/-- DT_SONAME, DT_STRSZ, DT_STRTAB, DT_HASH, DT_SYMTAB -/
def Tags.record (t : Tags) (d : Dyn) : Tags :=
  if d.dTag = 14#32 then { t with sonameOffset := some d.dVal }
  else if d.dTag = 10#32 then { t with strsz := d.dVal }
  else if d.dTag = 5#32 then { t with strtabOffset := d.dVal }
  else if d.dTag = 4#32 then { t with hashOffset := d.dVal }
  else if d.dTag = 6#32 then { t with symtabOffset := d.dVal }
  else t

/-- The string at an address, among `n` bytes. -/
def stringAt (memory : Memory) : Nat → Nat → Option (List Byte)
  | 0, _ => none
  | n + 1, k => if memory k = 0#8 then some [] else (stringAt memory n (k + 1)).map (memory k :: ·)

/-- The bytes that are asked for, a product of 32 bits. -/
def symtabSize (symnum : Word) : Nat := (symnum * 16#32).toNat

/-- `process_dynamic_table`, with a bound `n` for what is looked through in memory. -/
def processDynamicTable (n : Nat) (fd : LoaderFile) (host : Host) (fhdr : Ehdr) (segment : Phdr)
    (dyntab : Nat → Dyn) (pos : Nat) : Option Dynamic :=
  match entriesFrom dyntab n 0 with
  | none => none
  | some entries =>
    let tags := entries.foldl Tags.record {}
    if tags.strtabOffset = 0#32 ∨ tags.strsz = 0#32 then none
    else
      let pos := fseek tags.strtabOffset pos
      match host.strtab with
      | none => none
      | some strMemory =>
        let strings := fd.fread pos tags.strsz.toNat
        let strtab := fill strings strMemory
        if tags.hashOffset = 0#32 then none
        else
          let pos := fseek tags.hashOffset (pos + strings.length)
          let hash := fd.fread pos 8
          let symnum := endian32 fhdr.wrongEndian (wordAt (fill hash host.hash) 4)
          if tags.symtabOffset = 0#32 then none
          else
            let pos := fseek tags.symtabOffset (pos + hash.length)
            match host.symtab with
            | none => none
            | some symMemory =>
              let symtab := fill (fd.fread pos (symtabSize symnum)) symMemory
              let name := match tags.sonameOffset with
                | none => some []
                | some off => stringAt strtab n off.toNat
              match name with
              | none => none
              | some name =>
                if host.nameSpace then
                  some {
                    segment := segment
                    dyntab := dyntab
                    tags := tags
                    symnum := symnum
                    stName := (List.range symnum.toNat).map fun j =>
                      endian32 fhdr.wrongEndian (wordAt symtab (16 * j))
                    name := name }
                else none

/-- `dload_dynamic_information`, with `copy_dynamic_table`. -/
def dloadDynamicInformation (n : Nat) (fd : LoaderFile) (host : Host) (fhdr : Ehdr)
    (segment : Phdr) (pos : Nat) : Option Dynamic :=
  match host.dyntab with
  | none => none
  | some memory =>
    let pos := fseek segment.pOffset pos
    let bytes := fd.fread pos (8 * segment.numElem)
    let dyntab := dynAt fhdr.wrongEndian (fill bytes memory) segment.numElem
    processDynamicTable n fd host fhdr segment dyntab (pos + bytes.length)

/-- `dload_dynamic_segment`. A module without a dynamic segment is a static executable. -/
def dloadDynamicSegment (n : Nat) (fd : LoaderFile) (host : Host) (fhdr : Ehdr)
    (phdr : List Phdr) (pos : Nat) : Option (Option Dynamic) :=
  match phdr.find? fun h => h.pType = ptDynamic with
  | none => some none
  | some segment =>
    if processEiosabi fhdr = true then
      match dloadDynamicInformation n fd host fhdr segment pos with
      | none => none
      | some d => if d.name ∈ host.moduleDependencyList then none else some (some d)
    else none

/-! ## The checks -/

/-- `DLIMP_Dynamic_Module`, as far as it has been read. -/
structure Module where
  fhdr : Ehdr
  phdr : List Phdr
  dynamic : Option Dynamic

def Module.strsz (m : Module) : Word := m.dynamic.elim 0#32 fun d => d.tags.strsz

def Module.symnum (m : Module) : Word := m.dynamic.elim 0#32 Dynamic.symnum

/-- The checks of `is_valid_elf_object_file` for one program header. -/
def Phdr.isValid (fsz : Nat) (h : Phdr) : Prop :=
  (h.pType ≠ ptLoad ∨ h.pFilesz ≤ h.pMemsz) ∧ (h.pOffset + h.pFilesz).toNat < fsz

instance (fsz : Nat) (h : Phdr) : Decidable (h.isValid fsz) := inferInstanceAs (Decidable (_ ∧ _))

def isValidElfObjectFile (fd : LoaderFile) (m : Module) : Bool :=
  let fsz := fd.content.length
  decide ((m.strsz.toNat < fsz ∧ m.symnum.toNat < fsz ∧ m.phdr.length * 32 < fsz) ∧
    (∀ d ∈ m.dynamic, d.name ≠ []) ∧ (∀ h ∈ m.phdr, h.isValid fsz) ∧
    ¬ (m.fhdr.eType = etDyn ∧ m.dynamic.isNone = true))

def accept (n : Nat) (fd : LoaderFile) (host : Host) : Option Module :=
  match dloadFileHeader fd host with
  | none => none
  | some (fhdr, pos) =>
    let table := dloadProgramHeaderTable fd host fhdr pos
    match dloadDynamicSegment n fd host fhdr table.1 table.2 with
    | none => none
    | some dynamic =>
      let m : Module := { fhdr := fhdr, phdr := table.1, dynamic := dynamic }
      -- a static executable gets an empty name
      if dynamic.isNone = true ∧ host.nameSpace = false then none
      else if isValidElfObjectFile fd m = true then some m
      else none

end Omap4Hal.Elfload.Reading

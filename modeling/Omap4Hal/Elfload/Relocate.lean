import Omap4Hal.Elfload.ArmGroup
import Omap4Hal.Elfload.C60Reloc
import Omap4Hal.Lib.Run
import Omap4Hal.Lib.WordMemory

/- The relocation of a module (`arm_reloc.c`, `c60_reloc.c`, and `copy_segments` of `dload.c`).
   `DLIF_copy` puts every segment into a buffer of the host, the relocation entries are processed
   in the buffers, and `DLIF_write` takes them from there. A buffer is as long as its segment. The
   code looks only where a field starts: nothing is known of what lies behind the buffer, and a run
   that reads or writes there has no result. What is written depends on the buffers, which entries
   are processed does not: they are listed first. -/
namespace Omap4Hal.Elfload.Relocate

open Lib

/-! ## The types of the ARM -/

/-- The types of `ARM_RELOC_TYPE`; `other` are those that `write_reloc_r` does not know. -/
inductive ArmType where
  | branch (t : BranchType)
  | data (t : Data.DataType)
  | group (t : Group.GroupType)
  | other
  deriving DecidableEq, Repr

/-- By the numbers of `ARM_RELOC_TYPE`. -/
def armType (n : BitVec 8) : ArmType :=
  match n.toNat with
  | 1 => .branch .pc24
  | 2 => .data .abs32
  | 3 => .data .rel32
  | 4 => .group .ldrPcG0
  | 5 => .data .abs16
  | 6 => .data .abs12
  | 7 => .data .thmAbs5
  | 8 => .data .abs8
  | 10 => .branch .thmCall
  | 11 => .data .thmPc8
  | 27 => .branch .plt32
  | 28 => .branch .call
  | 29 => .branch .jump24
  | 30 => .branch .thmJump24
  | 42 => .data .prel31
  | 43 => .data .movwAbsNc
  | 44 => .data .movtAbs
  | 45 => .data .movwPrelNc
  | 46 => .data .movtPrel
  | 47 => .data .thmMovwAbsNc
  | 48 => .data .thmMovtAbs
  | 49 => .data .thmMovwPrelNc
  | 50 => .data .thmMovtPrel
  | 51 => .branch .thmJump19
  | 52 => .branch .thmJump6
  | 53 => .data .thmAluPrel11_0
  | 54 => .data .thmPc12
  | 55 => .data .abs32Noi
  | 56 => .data .rel32Noi
  | 57 => .group .aluPcG0Nc
  | 58 => .group .aluPcG0
  | 59 => .group .aluPcG1Nc
  | 60 => .group .aluPcG1
  | 61 => .group .aluPcG2
  | 62 => .group .ldrPcG1
  | 63 => .group .ldrPcG2
  | 64 => .group .ldrsPcG0
  | 65 => .group .ldrsPcG1
  | 66 => .group .ldrsPcG2
  | 67 => .group .ldcPcG0
  | 68 => .group .ldcPcG1
  | 69 => .group .ldcPcG2
  | 102 => .branch .thmJump11
  | 103 => .branch .thmJump8
  | _ => .other

def isDataRelocation : ArmType → Bool
  | .data .abs32 | .data .abs16 | .data .abs8 | .data .prel31 | .data .rel32 | .data .abs32Noi
  | .data .rel32Noi => true
  | _ => false

def relSwapEndian (wrongEndian be8 : Bool) (t : ArmType) : Bool :=
  if wrongEndian && be8 && isDataRelocation t then true
  else if !wrongEndian && be8 && !isDataRelocation t then true
  else wrongEndian

inductive RelocSize where
  | armReloc
  | thumb32Reloc
  | thumb16Reloc
  | arm8Reloc
  deriving DecidableEq, Repr

/-- `get_reloc_size`. Those of the other types do not matter: what is swapped before nothing is
written is swapped back. -/
def getRelocSize : ArmType → RelocSize
  | .data .thmAbs5 | .data .thmPc8 | .branch .thmJump6 | .branch .thmJump11 | .branch .thmJump8 =>
    .thumb16Reloc
  | .branch .thmCall | .branch .thmJump24 | .data .thmMovwAbsNc | .data .thmMovtAbs
  | .data .thmMovwPrelNc | .data .thmMovtPrel | .branch .thmJump19 | .data .thmAluPrel11_0
  | .data .thmPc12 => .thumb32Reloc
  | .data .abs8 => .arm8Reloc
  | _ => .armReloc

def relChangeEndian (t : ArmType) (field : Word) : Word :=
  match getRelocSize t with
  | .armReloc => changeEndian32 field
  | .thumb32Reloc => ofHalves (changeEndian16 (first field)) (changeEndian16 (second field))
  | .thumb16Reloc => ofHalves (changeEndian16 (first field)) (second field)
  | .arm8Reloc => field

theorem relChangeEndian_relChangeEndian (t : ArmType) (field : Word) :
    relChangeEndian t (relChangeEndian t field) = field := by
  rw [relChangeEndian, relChangeEndian]
  cases getRelocSize t <;> simp [changeEndian32_changeEndian32, changeEndian16_changeEndian16]

/-- `rel_unpack_addend` of the ARM. It sets no addend for the other types, for which nothing is
written. -/
def relUnpackAddend (t : ArmType) (field : Word) : Word :=
  match t with
  | .branch t => Elfload.relUnpackAddend t field
  | .data t => Data.relUnpackAddend t field
  | .group t => Group.relUnpackAddend t field
  | .other => 0#32

/-- What `reloc_do` of the ARM leaves in the field. -/
def relocDo (t : ArmType) (field addend symval pc : Word) : Word :=
  match t with
  | .branch t => (Elfload.relocDo t field addend symval pc).1
  | .data t => (Data.relocDo t field addend symval pc).1
  | .group t => (Group.relocDo t field addend symval pc).1
  | .other => field

/-! ## Segments and entries -/

/-- `DLIMP_Loaded_Segment`. The segment is linked for `inputVaddr`; `vaddr` is `p_vaddr`, the
target address at which it is loaded. -/
structure Segment where
  inputVaddr : Word
  vaddr : Word
  memsz : Word
  filesz : Word
  deriving DecidableEq, Repr

/-- `reloc_offset`, from `copy_segments`. -/
def Segment.relocOffset (seg : Segment) (host : Word) : Word := host - seg.vaddr

/-- The address at which the C6000 takes the segment to be. -/
def Segment.bufferAddress (seg : Segment) (host : Word) : Word := seg.vaddr + seg.relocOffset host

def Segment.relocAddress (seg : Segment) (host rOffset : Word) : Word :=
  seg.vaddr + seg.relocOffset host + rOffset - seg.inputVaddr

/-- The entry is in the segment. -/
def Segment.covers (seg : Segment) (rOffset : Word) : Prop :=
  seg.inputVaddr ≤ rOffset ∧ rOffset < seg.inputVaddr + seg.memsz

instance (seg : Segment) (rOffset : Word) : Decidable (seg.covers rOffset) :=
  inferInstanceAs (Decidable (_ ∧ _))

structure Rel where
  rOffset : Word
  rInfo : Word
  deriving DecidableEq, Repr

structure Rela extends Rel where
  rAddend : Word
  deriving DecidableEq, Repr

/-- `ELF32_R_SYM` -/
def Rel.sym (r : Rel) : Word := r.rInfo >>> 8

/-- `ELF32_R_TYPE` -/
def Rel.type (r : Rel) : BitVec 8 := r.rInfo.setWidth 8

/-- The loop over a table from the entry `rid` on: the entries that are in the segment, up to the
first that is not after one that is, and where the loop stops. -/
def scan {ι : Type} (inSegment : ι → Bool) : Bool → Nat → List ι → List ι × Nat
  | _, rid, [] => ([], rid)
  | found, rid, r :: rest =>
    if inSegment r then
      let scanned := scan inSegment true (rid + 1) rest
      (r :: scanned.1, scanned.2)
    else if found then ([], rid)
    else scan inSegment found (rid + 1) rest

/-- The entries that `process_rel_table` or `process_rela_table` finds, and the new start. -/
def processTable {ι : Type} (rOffset : ι → Word) (seg : Segment) (table : List ι)
    (start : Nat) : List ι × Nat :=
  let rid := if table.length ≤ start then 0 else start
  scan (fun r => decide (seg.covers (rOffset r))) false rid (table.drop rid)

/-- The table of the PLT belongs to the first segment with its first entry. -/
def pltSegment (rOffset : Word) : List (Segment × Nat) → Option (Segment × Nat)
  | [] => none
  | s :: rest =>
    if s.1.filesz = 0#32 then pltSegment rOffset rest
    else if s.1.covers rOffset then some s
    else pltSegment rOffset rest

/-! ## A module -/

/-- The relocation tables. Those of the C6000 have no `Elf32_Rel`: the loader exits at one. -/
inductive Tables where
  | arm (be8 : Bool) (plt : List Rel ⊕ List Rela) (rel : List Rel) (rela : List Rela)
  | c60 (tiStaticBase dsbtIndex : Word) (plt rela : List Rela)

/-- `DLIMP_Dynamic_Module`, with what `DLSYM_canonical_lookup` finds for a symbol. -/
structure DynamicModule where
  segments : List Segment
  wrongEndian : Bool
  canonicalLookup : Word → Option Word
  tables : Tables

/-- An entry with its symbol. An `Elf32_Rel` of the ARM has its addend in the field. -/
inductive Reloc where
  | arm (t : ArmType) (changeEndian : Bool) (addend : Option Word) (symval : Word)
  | c60 (t : C60.RelocType) (addend symval : Word) (wrongEndian : Bool)
    (tiStaticBase dsbtIndex : Word)
  deriving DecidableEq

/-- An entry that is processed, and the segment, with its number, that it is in. -/
structure Job where
  segment : Segment
  index : Nat
  rOffset : Word
  reloc : Reloc
  deriving DecidableEq

/-- No relocation is done without the symbol. -/
def armJob (m : DynamicModule) (be8 : Bool) (s : Segment × Nat) (r : Rel) (addend : Option Word) :
    Option Job :=
  (m.canonicalLookup r.sym).map fun symval =>
    { segment := s.1
      index := s.2
      rOffset := r.rOffset
      reloc := .arm (armType r.type) (relSwapEndian m.wrongEndian be8 (armType r.type)) addend
        symval }

def armRelJobs (m : DynamicModule) (be8 : Bool) (s : Segment × Nat) (table : List Rel) :
    List Job :=
  table.filterMap fun r => armJob m be8 s r none

def armRelaJobs (m : DynamicModule) (be8 : Bool) (s : Segment × Nat) (table : List Rela) :
    List Job :=
  table.filterMap fun r => armJob m be8 s r.toRel (some r.rAddend)

/-- `process_got_relocs` of the ARM, from a segment on. -/
def armGotJobs (m : DynamicModule) (be8 : Bool) (rel : List Rel) (rela : List Rela) :
    Nat → Nat → List (Segment × Nat) → List Job
  | _, _, [] => []
  | relRid, relaRid, s :: rest =>
    if s.1.filesz = 0#32 then armGotJobs m be8 rel rela relRid relaRid rest
    else
      let relas := processTable (fun r => r.rOffset) s.1 rela relaRid
      let rels := processTable (fun r => r.rOffset) s.1 rel relRid
      armRelaJobs m be8 s relas.1 ++ armRelJobs m be8 s rels.1 ++
        armGotJobs m be8 rel rela rels.2 relas.2 rest

/-- `process_pltgot_relocs`: the entries found, by the segment they are in. -/
def pltJobs {ι : Type} (rOffset : ι → Word) (segments : List (Segment × Nat))
    (jobs : Segment × Nat → List ι → List Job) (table : List ι) : List Job :=
  match table with
  | [] => []
  | r :: _ =>
    match pltSegment (rOffset r) segments with
    | none => []
    | some s => jobs s (processTable rOffset s.1 table 0).1

def c60RelaJobs (m : DynamicModule) (tiStaticBase dsbtIndex : Word) (s : Segment × Nat)
    (table : List Rela) : List Job :=
  table.filterMap fun r => (m.canonicalLookup r.sym).map fun symval =>
    { segment := s.1
      index := s.2
      rOffset := r.rOffset
      reloc := .c60 (C60.relocType r.type) r.rAddend symval m.wrongEndian tiStaticBase dsbtIndex }

/-- `process_got_relocs` of the C6000: every segment starts at the first entry. -/
def c60GotJobs (m : DynamicModule) (tiStaticBase dsbtIndex : Word) (rela : List Rela)
    (segments : List (Segment × Nat)) : List Job :=
  segments.flatMap fun s =>
    if s.1.filesz = 0#32 then []
    else c60RelaJobs m tiStaticBase dsbtIndex s (processTable (fun r => r.rOffset) s.1 rela 0).1

/-- The entries that `DLREL_relocate` or `DLREL_relocate_c60` processes, in its order: those of
the PLT, then those of the segments. -/
def DynamicModule.jobs (m : DynamicModule) : List Job :=
  let segments := m.segments.zipIdx
  match m.tables with
  | .arm be8 plt rel rela =>
    (match plt with
      | .inl table => pltJobs (fun r => r.rOffset) segments (armRelJobs m be8) table
      | .inr table => pltJobs (fun r => r.rOffset) segments (armRelaJobs m be8) table) ++
      armGotJobs m be8 rel rela 0 0 segments
  | .c60 tiStaticBase dsbtIndex plt rela =>
    pltJobs (fun r => r.rOffset) segments (c60RelaJobs m tiStaticBase dsbtIndex) plt ++
      c60GotJobs m tiStaticBase dsbtIndex rela segments

/-! ## Relocation -/

/-- The address of the field in the host's memory. -/
def Job.address (j : Job) (host : Word) : Word :=
  match j.reloc with
  | .arm _ _ _ _ => j.segment.relocAddress host j.rOffset
  | .c60 _ _ _ _ _ _ => j.segment.bufferAddress host + (j.rOffset - j.segment.inputVaddr)

/-- The field after the entry is processed, with the buffer at `host`. -/
def Job.relocated (j : Job) (host field : Word) : Word :=
  match j.reloc with
  | .arm t changeEndian addend symval =>
    let pc := j.segment.relocAddress host j.rOffset
    let field := if changeEndian then relChangeEndian t field else field
    let field := relocDo t field (addend.getD (relUnpackAddend t field)) symval pc
    if changeEndian then relChangeEndian t field else field
  | .c60 t addend symval wrongEndian tiStaticBase dsbtIndex =>
    (C60.relocDo t field (j.segment.bufferAddress host) addend symval
      (j.rOffset - j.segment.inputVaddr) wrongEndian tiStaticBase dsbtIndex).1

/-- The bytes that the functions of `get_reloc_size` change. -/
def RelocSize.bytes : RelocSize → Nat
  | .armReloc => 4
  | .thumb32Reloc => 4
  | .thumb16Reloc => 2
  | .arm8Reloc => 1

/-- How many bytes are read or written at the place. -/
def Job.size (j : Job) : Nat :=
  match j.reloc with
  | .arm t changeEndian addend _ =>
    if changeEndian then (getRelocSize t).bytes
    else match t with
      | .data .abs16 => 2
      -- `write_reloc_r` has no case for these; the addend of an `Elf32_Rel` is read
      | .group .aluPcG1 => if addend.isSome then 0 else 4
      | .other => 0
      | _ => (getRelocSize t).bytes
  | .c60 t _ _ wrongEndian _ _ =>
    if wrongEndian then 4
    else match t with
      | .abs16 => 2
      | .abs8 => 1
      | .other => 0
      | _ => 4

/-- They are all in the buffer. -/
def Job.inside (j : Job) : Prop :=
  (j.rOffset - j.segment.inputVaddr).toNat + j.size ≤ j.segment.memsz.toNat

instance (j : Job) : Decidable j.inside := inferInstanceAs (Decidable (_ ≤ _))

/-- The buffers of the segments, by their numbers. -/
abbrev Contents := Nat → Memory

/-- One entry in its buffer. `hosts` are the addresses that `DLIF_copy` has returned. -/
def process (hosts : Nat → Word) (c : Contents) (j : Job) : Contents :=
  let host := hosts j.index
  let place := j.address host - host
  Function.update c j.index
    (writeWord (c j.index) place (j.relocated host (readWord (c j.index) place)))

/-- One entry. No result is known of one that leaves its buffer. -/
def processIn (hosts : Nat → Word) (c : Contents) (j : Job) : Option Contents :=
  if j.inside then some (process hosts c j) else none

/-- What `DLIF_write` finds in the buffers. -/
def DynamicModule.relocate (m : DynamicModule) (hosts : Nat → Word) (c : Contents) :
    Option Contents :=
  run (processIn hosts) c m.jobs

theorem Segment.bufferAddress_eq (seg : Segment) (host : Word) : seg.bufferAddress host = host := by
  rw [bufferAddress, relocOffset, BitVec.add_comm, BitVec.sub_add_cancel]

theorem Segment.relocAddress_eq (seg : Segment) (host rOffset : Word) :
    seg.relocAddress host rOffset = host + (rOffset - seg.inputVaddr) := by
  have hbuffer := seg.bufferAddress_eq host
  rw [bufferAddress] at hbuffer
  rw [relocAddress, hbuffer, add_sub_assoc]

theorem Job.address_eq (j : Job) (host : Word) :
    j.address host = host + (j.rOffset - j.segment.inputVaddr) := by
  cases hr : j.reloc with
  | arm => simp only [address, hr, Segment.relocAddress_eq]
  | c60 => simp only [address, hr, Segment.bufferAddress_eq]

theorem Job.place_eq (j : Job) (host : Word) :
    j.address host - host = j.rOffset - j.segment.inputVaddr := by
  rw [address_eq, BitVec.add_comm, BitVec.add_sub_cancel]

end Omap4Hal.Elfload.Relocate

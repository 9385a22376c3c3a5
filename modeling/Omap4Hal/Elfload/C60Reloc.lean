import Omap4Hal.Elfload.Endian

/- The relocations of the ELF loader for the C6000 (`c60_reloc.c`): what `reloc_do` writes into
   the word at the relocated address. Values of C's `int32_t` and `uint32_t` are words. -/
namespace Omap4Hal.Elfload.C60

/-! ## The relocations -/

/-- The types of `C60_RELOC_TYPE` that the loader handles, and the others. -/
inductive RelocType where
  | abs32
  | abs16
  | abs8
  | pcrS21
  | pcrS12
  | pcrS10
  | pcrS7
  | absS16
  | absL16
  | absH16
  | sbrU15B
  | sbrU15H
  | sbrU15W
  | sbrS16
  | sbrL16B
  | sbrL16H
  | sbrL16W
  | sbrH16B
  | sbrH16H
  | sbrH16W
  | dsbtIndex
  | prel31
  | other
  deriving DecidableEq, Repr

/-- By the numbers of `C60_RELOC_TYPE`. -/
def relocType (n : BitVec 8) : RelocType :=
  match n.toNat with
  | 1 => .abs32
  | 2 => .abs16
  | 3 => .abs8
  | 4 => .pcrS21
  | 5 => .pcrS12
  | 6 => .pcrS10
  | 7 => .pcrS7
  | 8 => .absS16
  | 9 => .absL16
  | 10 => .absH16
  | 11 => .sbrU15B
  | 12 => .sbrU15H
  | 13 => .sbrU15W
  | 14 => .sbrS16
  | 15 => .sbrL16B
  | 16 => .sbrL16H
  | 17 => .sbrL16W
  | 18 => .sbrH16B
  | 19 => .sbrH16H
  | 20 => .sbrH16W
  | 24 => .dsbtIndex
  | 25 => .prel31
  | _ => .other

inductive RelocError where
  /-- "reloc_do called with invalid relocation type!\n" -/
  | relocDoInvalidType
  /-- "rel_overflow called with invalid relocation type!\n" -/
  | relOverflowInvalidType
  /-- "relocation overflow!\n" -/
  | relocationOverflow
  /-- "pack_result called with invalid relocation type!\n" -/
  | packResultInvalidType
  /-- "mask_result called with invalid relocation type!\n" -/
  | maskResultInvalidType
  /-- "write_reloc_r called with invalid relocation type!\n" -/
  | writeInvalidType
  deriving DecidableEq, Repr

/-- The macro `MASK`. -/
def mask (n s : Nat) : Word := (1#32 <<< n - 1#32) <<< s

/-! ## Writing -/

/-- The bits of the field that are kept, and how far the value is moved. -/
def insert (field r : Word) (n s : Nat) : Word := field &&& ~~~mask n s ||| r <<< s

def writeRelocR (field : Word) (t : RelocType) (r : Word) : Word × List RelocError :=
  match t with
  | .abs32 => (r, [])
  | .prel31 => (field &&& ~~~mask 30 0 ||| r, [])
  | .abs16 => (ofHalves (r.setWidth 16) (second field), [])
  | .abs8 => (field &&& ~~~0xFF#32 ||| (r.setWidth 8).setWidth 32, [])
  | .pcrS21 => (insert field r 21 7, [])
  | .pcrS12 => (insert field r 12 16, [])
  | .pcrS10 => (insert field r 10 13, [])
  | .pcrS7 => (insert field r 7 16, [])
  | .absS16 | .absL16 | .absH16 => (insert field r 16 7, [])
  | .sbrU15B | .sbrU15H | .sbrU15W | .dsbtIndex => (insert field r 15 8, [])
  | .sbrS16 | .sbrL16B | .sbrL16H | .sbrL16W | .sbrH16B | .sbrH16H | .sbrH16W =>
    (insert field r 16 7, [])
  | .other => (field, [.writeInvalidType])

def packResult (unpacked : Word) : RelocType → Word × List RelocError
  | .abs32 | .abs16 | .abs8 | .absS16 | .absL16 | .sbrU15B | .sbrS16 | .sbrL16B => (unpacked, [])
  | .sbrU15H | .sbrL16H | .prel31 => (unpacked.sshiftRight 1, [])
  | .pcrS21 | .pcrS12 | .pcrS10 | .pcrS7 | .sbrU15W | .sbrL16W | .dsbtIndex =>
    (unpacked.sshiftRight 2, [])
  | .absH16 | .sbrH16B => (unpacked.sshiftRight 16, [])
  | .sbrH16H => (unpacked.sshiftRight 17, [])
  | .sbrH16W => (unpacked.sshiftRight 18, [])
  | .other => (0#32, [.packResultInvalidType])

def maskResult (unmasked : Word) : RelocType → Word × List RelocError
  | .abs8 => (unmasked &&& 0xFF#32, [])
  | .abs32 => (unmasked, [])
  | .abs16 | .absS16 | .absL16 | .absH16 | .sbrS16 | .sbrL16B | .sbrL16H | .sbrL16W | .sbrH16B
  | .sbrH16H | .sbrH16W => (unmasked &&& 0xFFFF#32, [])
  | .pcrS21 => (unmasked &&& 0x1FFFFF#32, [])
  | .pcrS12 => (unmasked &&& 0xFFF#32, [])
  | .pcrS10 => (unmasked &&& 0x3FF#32, [])
  | .pcrS7 => (unmasked &&& 0x7F#32, [])
  | .sbrU15B | .sbrU15H | .sbrU15W | .dsbtIndex => (unmasked &&& 0x7FFF#32, [])
  | .prel31 => (unmasked &&& 0x7FFFFFFF#32, [])
  | .other => (0#32, [.maskResultInvalidType])

def outside (lo hi v : Word) : Bool := hi.sle v || v.slt lo

def relOverflow (t : RelocType) (v : Word) : Bool × List RelocError :=
  match t with
  | .abs16 => (outside (-32768#32) 65536#32 v, [])
  | .abs8 => (outside (-128#32) 256#32 v, [])
  | .pcrS21 => (outside (-0x400000#32) 0x400000#32 v, [])
  | .pcrS12 => (outside (-0x2000#32) 0x2000#32 v, [])
  | .pcrS10 => (outside (-0x800#32) 0x800#32 v, [])
  | .pcrS7 => (outside (-0x100#32) 0x100#32 v, [])
  | .sbrS16 | .absS16 => (outside (-0x8000#32) 0x8000#32 v, [])
  | .sbrU15B => ((0x8000#32).ule v, [])
  | .sbrU15H => ((0xFFFF#32).ule v, [])
  | .dsbtIndex | .sbrU15W => ((0x1FFFD#32).ule v, [])
  | .absL16 | .absH16 | .sbrL16B | .sbrL16H | .sbrL16W | .sbrH16B | .sbrH16H | .sbrH16W | .abs32
  | .prel31 => (false, [])
  | .other => (true, [.relOverflowInvalidType])

def relocValue (t : RelocType) (segmentAddress addend symval spc basePointer dsbtIndex : Word) :
    Word × List RelocError :=
  match t with
  | .abs32 | .abs16 | .abs8 | .absS16 | .absL16 | .absH16 => (symval + addend, [])
  | .pcrS21 | .pcrS12 | .pcrS10 | .pcrS7 =>
    (symval + addend - ((spc + segmentAddress) &&& 0xFFFFFFE0#32), [])
  | .prel31 => (symval + addend - (spc + segmentAddress), [])
  | .sbrU15B | .sbrU15H | .sbrU15W | .sbrS16 | .sbrL16B | .sbrL16H | .sbrL16W | .sbrH16B
  | .sbrH16H | .sbrH16W => (symval + addend - basePointer, [])
  | .dsbtIndex => (symval + addend - basePointer + dsbtIndex <<< 2, [])
  | .other => (0#32, [.relocDoInvalidType])

/-- The field at `segmentAddress + spc` after `reloc_do`, and the errors it has reported. -/
def relocDo (t : RelocType) (field segmentAddress addend symval spc : Word) (wrongEndian : Bool)
    (basePointer dsbtIndex : Word) : Word × List RelocError :=
  let value := relocValue t segmentAddress addend symval spc basePointer dsbtIndex
  let overflow := relOverflow t value.1
  let packed := packResult value.1 t
  let masked := maskResult packed.1 t
  let written := writeRelocR (if wrongEndian then changeEndian32 field else field) t masked.1
  (if wrongEndian then changeEndian32 written.1 else written.1,
    value.2 ++ overflow.2 ++ (if overflow.1 then [.relocationOverflow] else []) ++ packed.2 ++
      masked.2 ++ written.2)

end Omap4Hal.Elfload.C60

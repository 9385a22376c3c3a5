import Omap4Hal.Lib.SetBits
import Omap4Hal.Lib.Watched

/- The parser of the identification data of a display (`edid_parser.c`).

   The data are 256 bytes, and memory goes on behind them: `Memory` is what the parser would read
   at every distance from the start. The parser runs as it is written, with bytes that wrap, and
   is watched for the reads outside the data, for the steps of an 8-bit counter that leave its
   range and for the indices outside a table (`Lib.Watched`). A loop has `passes` to spend.

   `malloc` gives the memory it is asked for. Its content is not cleared: `fresh` is what it
   leaves in the field `format` of each entry. -/
namespace Omap4Hal.Edid

open Lib Lib.Watched

abbrev Byte := BitVec 8

abbrev Memory := Nat → Byte

def edidSize : Nat := 256

def maxVicCodesPer3dFormat : Nat := 16

def readByte (edidData : Memory) (off : Nat) : Watched Byte := do
  watch (off < edidSize)
  pure (edidData off)

/-- `x += n` where `x` is a `uint8_t`. -/
def add8 (x n : Nat) : Watched Nat := do
  watch (x + n < 256)
  pure ((x + n) % 256)

/-- `x -= n` where `x` is a `uint8_t`. -/
def sub8 (x n : Nat) : Watched Nat := do
  watch (n ≤ x)
  pure ((x + 256 - n) % 256)

/-! ## Types -/

inductive DatablockId where
  | audio
  | video
  | vendor
  | speakers
  deriving DecidableEq, Repr

def DatablockId.code : DatablockId → Nat
  | .audio => 1
  | .video => 2
  | .vendor => 3
  | .speakers => 4

/-! A format is a number: the parser stores values `enum hdmi_3d_format` does not name. -/

def hdmiTopbottom : Nat := 6

def hdmiSideBySideHalf : Nat := 8

/-- The position of HDMI_SIDE_BY_SIDE_HALF_QUINCUNX_BIT. -/
def quincunxBit : Nat := 15

/-! `enum hdmi_3d_subsampling`, also a number. -/

def hdmiSsHorzandquincunx : Nat := 0

def hdmiSsHorizontal : Nat := 1

def hdmiSsQuincunxAll : Nat := 6

def hdmiSsVertical : Nat := 0xF0000

def hdmiSsNone : Nat := 0xF0001

inductive HdmiScanType where
  | progressive
  | interlaced
  deriving DecidableEq, Repr

structure SvdInfo where
  xres : Nat
  yres : Nat
  hz : Nat
  scanType : HdmiScanType
  name : String
  deriving DecidableEq, Repr

/-- `struct svd_t`. There is no information if it was copied from behind the table. -/
structure Svd where
  code : Nat
  native : Bool
  info : Option SvdInfo
  deriving DecidableEq, Repr

structure VicInfo where
  vicPos : Nat
  subsampling : Nat
  deriving DecidableEq, Repr

/-- `struct hdmi_s3d_format_info_t`, with the first `num_valid_vic` entries of `vic_info`. -/
structure FormatInfo where
  format : Nat
  vicInfo : List VicInfo
  deriving DecidableEq, Repr

/-- `struct edid_t`. The lists are as long as `num_s3d_formats` and `num_svds` say. -/
structure EdidT where
  s3dCapable : Bool
  s3dFormatList : List FormatInfo
  svdList : List Svd
  deriving DecidableEq, Repr

def svdTable : List SvdInfo :=
  [⟨0, 0, 0, .progressive, "reserved"⟩, ⟨640, 480, 60, .progressive, "DMT0659"⟩,
   ⟨720, 480, 60, .progressive, "480p"⟩, ⟨720, 480, 60, .progressive, "480pH"⟩,
   ⟨1280, 720, 60, .progressive, "720p"⟩, ⟨1920, 1080, 60, .interlaced, "1080i"⟩,
   ⟨720, 480, 60, .interlaced, "480i"⟩, ⟨720, 480, 60, .interlaced, "480iH"⟩,
   ⟨720, 240, 60, .progressive, "240p"⟩, ⟨1280, 720, 60, .progressive, "240pH"⟩,
   ⟨720, 480, 60, .interlaced, "480i4x"⟩, ⟨720, 480, 60, .interlaced, "480i4xH"⟩,
   ⟨720, 240, 60, .progressive, "240p4x"⟩, ⟨720, 240, 60, .progressive, "240p4xH"⟩,
   ⟨720, 480, 60, .progressive, "480p2x"⟩, ⟨720, 480, 60, .progressive, "480p2xH"⟩,
   ⟨1920, 1080, 60, .progressive, "1080p"⟩, ⟨720, 576, 50, .progressive, "576p"⟩,
   ⟨720, 576, 50, .progressive, "576pH"⟩, ⟨1280, 720, 50, .progressive, "720p50"⟩,
   ⟨1920, 1080, 50, .interlaced, "1080i25"⟩, ⟨720, 576, 50, .interlaced, "576i"⟩,
   ⟨720, 576, 50, .interlaced, "576iH"⟩, ⟨720, 288, 50, .progressive, "288p"⟩,
   ⟨720, 288, 50, .progressive, "288pH"⟩, ⟨720, 576, 50, .interlaced, "576i4x"⟩,
   ⟨720, 576, 50, .interlaced, "576i4xH"⟩, ⟨720, 288, 50, .progressive, "288p4x"⟩,
   ⟨720, 288, 50, .progressive, "288p4xH"⟩, ⟨720, 576, 50, .progressive, "576p2x"⟩,
   ⟨720, 576, 50, .progressive, "576p2xH"⟩, ⟨1920, 1080, 50, .progressive, "1080p50"⟩,
   ⟨1920, 1080, 24, .progressive, "1080p24"⟩, ⟨1920, 1080, 25, .progressive, "1080p25"⟩,
   ⟨1920, 1080, 30, .progressive, "1080p30"⟩, ⟨720, 480, 60, .progressive, "480p4x"⟩,
   ⟨720, 480, 60, .progressive, "480p4xH"⟩, ⟨720, 576, 50, .progressive, "576p4x"⟩,
   ⟨720, 576, 50, .progressive, "576p4xH"⟩, ⟨1920, 1080, 50, .interlaced, "1080i25"⟩,
   ⟨1920, 1080, 100, .interlaced, "1080i50"⟩, ⟨1280, 720, 100, .progressive, "720p100"⟩,
   ⟨720, 576, 100, .progressive, "576p100"⟩, ⟨720, 576, 100, .progressive, "576p100H"⟩,
   ⟨720, 576, 100, .interlaced, "576i50"⟩, ⟨720, 576, 100, .interlaced, "576i50H"⟩,
   ⟨1920, 1080, 120, .interlaced, "1080i60"⟩, ⟨1280, 720, 120, .progressive, "720p120"⟩,
   ⟨720, 480, 120, .progressive, "480p120"⟩, ⟨720, 480, 120, .progressive, "480p120H"⟩,
   ⟨720, 480, 120, .interlaced, "480i60"⟩, ⟨720, 480, 120, .interlaced, "480i60H"⟩,
   ⟨720, 576, 200, .progressive, "576p200"⟩, ⟨720, 576, 200, .progressive, "576p200H"⟩,
   ⟨720, 576, 200, .interlaced, "576i100"⟩, ⟨720, 576, 200, .interlaced, "576i100H"⟩,
   ⟨720, 480, 240, .progressive, "480p240"⟩, ⟨720, 480, 240, .progressive, "480p240H"⟩,
   ⟨720, 480, 240, .interlaced, "480i120"⟩, ⟨720, 480, 240, .interlaced, "480i120H"⟩,
   ⟨1280, 720, 24, .progressive, "720p24"⟩, ⟨1280, 720, 25, .progressive, "720p25"⟩,
   ⟨1280, 720, 30, .progressive, "720p30"⟩, ⟨1920, 1080, 120, .progressive, "1080p120"⟩]

/-! ## Data blocks -/

/-- Upper 3 bits indicate block type. -/
def blockType (val : Byte) : Nat := (val >>> 5).toNat

/-- Lower 5 bits indicate block length. -/
def blockLength (val : Byte) : Nat := (val &&& 0x1F#8).toNat

/-- The loop of `edid_get_datablock_offset`. -/
def datablockWalk (edidData : Memory) (type : DatablockId) (stop : Nat) :
    Nat → Nat → Watched (Option Nat)
  | 0, _ => outOfPasses
  | passes + 1, offset =>
    if offset < stop then do
      let val ← readByte edidData offset
      if blockType val = type.code then
        pure (some offset)
      else do
        let offset ← add8 offset (blockLength val + 1)
        datablockWalk edidData type stop passes offset
    else
      pure none

def edidGetDatablockOffset (edidData : Memory) (type : DatablockId) (passes : Nat) :
    Watched (Option Nat) := do
  let extension ← readByte edidData 0x7e
  if extension = 0#8 then
    pure none
  else do
    let extLength ← readByte edidData 0x82
    if extLength = 4#8 then
      pure none
    else
      datablockWalk edidData type (0x80 + extLength.toNat) passes 0x84

/-! ## Short video descriptors -/

def numSvdEntries : Nat := svdTable.length

def edidFillSvdInfo (code : Nat) : Watched (Option SvdInfo) := do
  let code := if code > numSvdEntries then 0 else code
  watch (code < numSvdEntries)
  pure svdTable[code]?

def svdCode (val : Byte) : Nat := (val &&& 0x7F#8).toNat

def svdNative (val : Byte) : Bool := val &&& 0x80#8 == 0x80#8

/-- The loop of `edid_parse_svds`. -/
def svdAt (edidData : Memory) (offset i : Nat) : Watched Svd := do
  let val ← readByte edidData (offset + i)
  let info ← edidFillSvdInfo (svdCode val)
  pure { code := svdCode val, native := svdNative val, info := info }

/-- `edid_parse_svds`, which sets `num_svds` and `svd_list`. -/
def edidParseSvds (edidData : Memory) (passes : Nat) : Watched (List Svd) := do
  let found ← edidGetDatablockOffset edidData .video passes
  match found with
  | none => pure []
  | some offset => do
    let header ← readByte edidData offset
    (List.range (blockLength header)).mapM (svdAt edidData offset)

/-! ## The 3D section of the vendor block -/

def hdmiVideoPresent (val : Byte) : Bool := val &&& 0x20#8 != 0#8

/-- The bytes of the latency fields that are present. -/
def latencyLength (val : Byte) : Nat :=
  (if val &&& 0x80#8 = 0#8 then 0 else 2) + (if val &&& 0x40#8 = 0#8 then 0 else 2)

def threeDPresent (val : Byte) : Bool := val &&& 0x80#8 != 0#8

def s3dMultiPresent (val : Byte) : Nat := ((val &&& 0x60#8) >>> 5).toNat

def hdmiXxLen (val : Byte) : Nat := ((val &&& 0xE0#8) >>> 5).toNat

def hdmi3dLen (val : Byte) : Nat := (val &&& 0x1F#8).toNat

/-- Where the section starts, and its length. -/
structure S3dSection where
  multiPresent : Nat
  off : Nat
  len : Nat

/-- `edid_parse_s3d_support` from the vendor block at `off` to the length of the section. -/
def s3dSection (edidData : Memory) (off : Nat) : Watched (Option S3dSection) := do
  let flags ← readByte edidData (off + 8)
  if hdmiVideoPresent flags then do
    let off := off + 9 + latencyLength flags
    let val ← readByte edidData off
    if threeDPresent val then do
      let lens ← readByte edidData (off + 1)
      pure (some
        { multiPresent := s3dMultiPresent val
          off := off + 2 + hdmiXxLen lens
          len := hdmi3dLen lens })
    else
      pure none
  else
    pure none

/-- Two bytes as a `uint16_t`, the upper one first. -/
def word16 (hi lo : Byte) : Nat := hi.toNat <<< 8 ||| lo.toNat

/-- The masks of the section, and the list behind them. -/
structure S3dMasks where
  structAll : Nat
  vicPosBits : Nat
  off : Nat
  len : Nat

def s3dMasks (edidData : Memory) (s : S3dSection) : Watched S3dMasks :=
  if s.multiPresent = 1 ∨ s.multiPresent = 2 then do
    let hi ← readByte edidData s.off
    let lo ← readByte edidData (s.off + 1)
    let len ← sub8 s.len 2
    if s.multiPresent = 2 then do
      let vicHi ← readByte edidData (s.off + 2)
      let vicLo ← readByte edidData (s.off + 3)
      let len ← sub8 len 2
      pure
        { structAll := word16 hi lo
          vicPosBits := word16 vicHi vicLo
          off := s.off + 4
          len := len }
    else
      pure { structAll := word16 hi lo, vicPosBits := 0xFFFF, off := s.off + 2, len := len }
  else
    pure { structAll := 0, vicPosBits := 0, off := s.off, len := s.len }

/-- The lower 4 bits of an entry of the list. -/
def entryFormat (val : Byte) : Nat := (val &&& 0x0F#8).toNat

/-- The upper 4 bits. -/
def entryVicPos (val : Byte) : Nat := ((val &&& 0xF0#8) >>> 4).toNat

/-- `set_s3d_format_bits`. Its counter is an `int`, and below zero the loop ends as at zero. -/
def setS3dFormatBits (edidData : Memory) (off len structBits : Nat) : Watched Nat :=
  if _h : 0 < len then do
    let val ← readByte edidData off
    let structBits := structBits ||| 1 <<< entryFormat val
    if hdmiSideBySideHalf ≤ entryFormat val then do
      watch (2 ≤ len)
      setS3dFormatBits edidData (off + 2) (len - 2) structBits
    else
      setS3dFormatBits edidData (off + 1) (len - 1) structBits
  else
    pure structBits
termination_by len

/-- A pass of the loop that enters the formats, with the number of those before. -/
def fillFormat (structBits : Nat) (s : Nat × List FormatInfo) (i : Nat) :
    Watched (Nat × List FormatInfo) :=
  if structBits.testBit i then do
    watch (s.1 < s.2.length)
    pure (s.1 + 1, s.2.modify s.1 fun f => { f with format := i })
  else
    pure s

/-- The formats up to HDMI_SIDE_BY_SIDE_HALF, in a list as long as there are bits. -/
def s3dFormats (fresh : Nat → Nat) (structBits : Nat) : Watched (List FormatInfo) := do
  let blank := (List.range (countBits structBits)).map fun k =>
    { format := fresh k, vicInfo := [] }
  let filled ← (List.range (hdmiSideBySideHalf + 1)).foldlM (fillFormat structBits) (0, blank)
  pure filled.2

/-- The subsampling of a format of the mask. With neither of the bits of HDMI_SIDE_BY_SIDE_HALF
it has no position, and the value is not used. -/
def maskSubsampling (structAll format : Nat) : Nat :=
  if format = hdmiSideBySideHalf then
    if structAll.testBit quincunxBit && structAll.testBit hdmiSideBySideHalf then
      hdmiSsHorzandquincunx
    else if structAll.testBit quincunxBit then
      hdmiSsQuincunxAll
    else
      hdmiSsHorizontal
  else if format = hdmiTopbottom then
    hdmiSsVertical
  else
    hdmiSsNone

def maskPositions (structAll vicPosBits format : Nat) : List Nat :=
  if structAll.testBit format then bitsBelow 16 vicPosBits else []

/-- `vic_info` and `num_valid_vic` of an entry, from the masks. -/
def fillVicInfo (structAll vicPosBits : Nat) (f : FormatInfo) : Watched FormatInfo := do
  let positions := maskPositions structAll vicPosBits f.format
  watch (positions.length ≤ maxVicCodesPer3dFormat)
  pure
    { f with
      vicInfo := positions.map fun j =>
        { vicPos := j, subsampling := maskSubsampling structAll f.format } }

/-- The entry of a position, new or not. -/
def setVicInfo (l : List VicInfo) (vicPosIx : Nat) (v : VicInfo) : List VicInfo :=
  if vicPosIx < l.length then l.set vicPosIx v else l ++ [v]

def updateS3dFormat (edid : EdidT) (format vicPos subsamp : Nat) : Watched EdidT :=
  if edid.svdList.length < vicPos then
    pure edid
  else
    let formatIx := edid.s3dFormatList.findIdx fun f => f.format == format
    match edid.s3dFormatList[formatIx]? with
    | none => pure edid
    | some f => do
      let vicPosIx := f.vicInfo.findIdx fun v => v.vicPos == vicPos
      -- the search has read no index above this one
      watch (vicPosIx < maxVicCodesPer3dFormat)
      let vicInfo := setVicInfo f.vicInfo vicPosIx { vicPos := vicPos, subsampling := subsamp }
      pure { edid with
        s3dFormatList := edid.s3dFormatList.set formatIx { f with vicInfo := vicInfo } }

/-- The loop over the list behind the masks. -/
def s3dList (edidData : Memory) : Nat → Nat → Nat → EdidT → Watched EdidT
  | 0, _, _, _ => outOfPasses
  | passes + 1, off, len, edid =>
    if 0 < len then do
      let val ← readByte edidData off
      if hdmiSideBySideHalf ≤ entryFormat val then do
        let detail ← readByte edidData (off + 1)
        let len ← sub8 len 1
        let edid ← updateS3dFormat edid (entryFormat val) (entryVicPos val) (entryVicPos detail)
        let len ← sub8 len 1
        s3dList edidData passes (off + 2) len edid
      else do
        let subsampling :=
          if entryFormat val = hdmiTopbottom then hdmiSsVertical else hdmiSsNone
        let edid ← updateS3dFormat edid (entryFormat val) (entryVicPos val) subsampling
        let len ← sub8 len 1
        s3dList edidData passes (off + 1) len edid
    else
      pure edid

/-- `edid_parse_s3d_support` from the start of the section. -/
def edidParseS3dSection (edid : EdidT) (edidData : Memory) (fresh : Nat → Nat) (passes : Nat)
    (s : S3dSection) : Watched EdidT := do
  let masks ← s3dMasks edidData s
  let structBits ← setS3dFormatBits edidData masks.off masks.len (masks.structAll &&& 0x7FFF)
  let formats ← s3dFormats fresh structBits
  let filled ← formats.mapM (fillVicInfo masks.structAll masks.vicPosBits)
  s3dList edidData passes masks.off masks.len
    { edid with s3dCapable := true, s3dFormatList := filled }

def edidParseS3dSupport (edid : EdidT) (edidData : Memory) (fresh : Nat → Nat) (passes : Nat) :
    Watched EdidT := do
  let found ← edidGetDatablockOffset edidData .vendor passes
  match found with
  | none => pure edid
  | some off => do
    let sec ← s3dSection edidData off
    match sec with
    | none => pure edid
    | some s => edidParseS3dSection edid edidData fresh passes s

/-- `edid_parser_init`, for a handle that is not null. -/
def edidParserInit (edidData : Memory) (fresh : Nat → Nat) (passes : Nat) : Watched EdidT := do
  let svds ← edidParseSvds edidData passes
  edidParseS3dSupport { s3dCapable := false, s3dFormatList := [], svdList := svds } edidData fresh
    passes

end Omap4Hal.Edid

import Omap4Hal.Lib.Loop
import Omap4Hal.Security.PartitionFile

/- The manifest parser of the security daemon (`lib_manifest2.c`):
   `libManifest2InitContext`, `static_libManifest2GetNextItemInternal`,
   `libManifest2GetNextItem` and `libManifest2CheckFormat`.

   A pointer into the manifest is the list of the bytes from it to `pEnd`. A loop that
   moves its pointer in every pass is a recursion over that list. The loops of which
   this has to be shown are run by `loop` and `loopM` with a number of passes to
   spend: over comments and empty lines, over the blanks behind a section header, over
   the items before the current one, and over all items. A parser function is
   `none` when one of them is not left in time.

   The blanks behind a section header end at the end of the line. Any other
   character there is only logged, and the pointer stays on it. -/
namespace Omap4Hal.Security
open Lib

def sErrorBadFormat : UInt32 := 0xFFFF0005

def charCR : UInt8 := 0x0D
def charLF : UInt8 := 0x0A
def charTab : UInt8 := 0x09
def charSpace : UInt8 := 0x20
def charHash : UInt8 := 0x23
def charColon : UInt8 := 0x3A
def charOpenBracket : UInt8 := 0x5B
def charCloseBracket : UInt8 := 0x5D

def isBlank (c : UInt8) : Bool := c == charSpace || c == charTab
def isEol (c : UInt8) : Bool := c == charCR || c == charLF

inductive ManifestType where
  | compiled
  | source
  | sourceWithSections
  deriving DecidableEq, Repr

inductive CharacterType where
  | nameFirst
  | nameSubsequent
  | sectionName
  deriving DecidableEq, Repr

/-- `static_checkCharacter`. -/
def checkCharacter (x : UInt8) (nType : CharacterType) : Bool :=
  if 0x61 ≤ x ∧ x ≤ 0x7A then true
  else if 0x41 ≤ x ∧ x ≤ 0x5A then true
  else if 0x30 ≤ x ∧ x ≤ 0x39 then true
  else if nType = .nameFirst then false
  else if x = 0x5F ∨ x = 0x2E ∨ x = 0x2D then true
  else if nType = .nameSubsequent then false
  else x == charSpace

def sectionNameEqualCaseInsensitive (name₁ name₂ : List UInt8) : Bool :=
  name₁.length == name₂.length &&
    (name₁.zip name₂).all fun x => (x.1 &&& ~~~ 0x20) == (x.2 &&& ~~~ 0x20)

/-! ## Comments and empty lines -/

/-- To the end of the line of a comment; NUL is refused. -/
def skipComment : List UInt8 → Option (List UInt8)
  | [] => some []
  | c :: cs => if isEol c then some (c :: cs) else if c = 0 then none else skipComment cs

/-- To the end of a line that starts with a blank and must hold nothing else. -/
def skipWhite : List UInt8 → Option (List UInt8)
  | [] => some []
  | c :: cs => if isEol c then some (c :: cs) else if isBlank c then skipWhite cs else none

/-- The scanner between two lines: what is left, how many lines it has passed, and
whether it has met an error. -/
structure Lines where
  rest : List UInt8
  nLine : Nat
  failed : Bool
  deriving DecidableEq, Repr

/-- One pass of "Skip comments and newlines". -/
def linesPass (l : Lines) : Flow Lines :=
  match l.rest with
  | [] => .stop l
  | c :: cs =>
    -- a comment, up to the end of its line
    if c = charHash then
      match skipComment cs with
      | none => .stop { l with failed := true }
      | some r => .next { l with rest := r }
    -- CR, LF and CR LF end a line
    else if c = charCR then
      match cs with
      | [] => .next { l with rest := [], nLine := l.nLine + 1 }
      | d :: ds =>
        if d = charLF then .next { l with rest := ds, nLine := l.nLine + 1 }
        else .next { l with rest := d :: ds, nLine := l.nLine + 1 }
    else if c = charLF then .next { l with rest := cs, nLine := l.nLine + 1 }
    else if isBlank c then
      match skipWhite cs with
      | none => .stop { l with failed := true }
      | some r => .next { l with rest := r }
    else .stop l

/-- The byte order mark is skipped at the start of the manifest. -/
def skipBom (atStart : Bool) (rest : List UInt8) : List UInt8 :=
  match rest with
  | 0xEF :: 0xBB :: 0xBF :: cs => if atStart then cs else rest
  | _ => rest

/-- A compiled manifest has no comments. -/
def skipLines (n : Nat) (nType : ManifestType) (atStart : Bool) (rest : List UInt8) :
    Option Lines :=
  if nType = .compiled then some ⟨rest, 0, false⟩
  else loop linesPass n ⟨skipBom atStart rest, 0, false⟩

/-- The name up to the closing bracket, and what follows the bracket. -/
def sectionName : List UInt8 → Option (List UInt8 × List UInt8)
  | [] => none
  | c :: cs =>
    if c = charCloseBracket then some ([], cs)
    else if checkCharacter c .sectionName then (sectionName cs).map fun x => (c :: x.1, x.2)
    else none

/-- One pass of "Skip spaces and tabs" behind a section header. -/
def headerPass (cs : List UInt8) : Flow (List UInt8) :=
  match cs with
  | [] => .stop []
  | c :: r =>
    if isBlank c then .next r
    else if isEol c then .stop cs
    -- "Non-space character follows a sectino header" is logged, nothing else
    else .next cs

/-! ## Properties -/

/-- The name loop: `cur` is the distance from the start of the name, `last` that of
`pLastNonWhitespaceChar`. -/
def nameLoop (nType : ManifestType) : Nat → Nat → List UInt8 → Option (Nat × List UInt8)
  | _, _, [] => none
  | cur, last, c :: cs =>
    if c = charColon then some (last, cs)
    else if nType ≠ .compiled ∧ isBlank c then nameLoop nType (cur + 1) last cs
    else if checkCharacter c .nameSubsequent = false then none
    -- blanks may stand before the colon, not inside the name
    else if nType ≠ .compiled ∧ cur ≠ last then none
    else nameLoop nType (cur + 1) (cur + 1) cs

/-- `nCurrentSequenceCount` and `nCurrentChar`. -/
structure Utf8State where
  count : Nat
  char : UInt32
  deriving DecidableEq, Repr

def utf8Byte (u : Utf8State) (b : UInt8) : Option Utf8State :=
  let x := b.toUInt32
  if x &&& 0x80 = 0 then
    if u.count ≠ 0 then none
    else if x = 0 then none
    else some { u with char := x }
  else if x &&& 0xC0 = 0xC0 then
    if u.count ≠ 0 then none
    else if x &&& 0xE0 = 0xC0 then
      if x &&& 0x1E = 0 then none else some ⟨1, x &&& 0x1F⟩
    else if x &&& 0xF0 = 0xE0 then some ⟨2, x &&& 0x0F⟩
    else if x &&& 0xF8 = 0xF0 then some ⟨3, x &&& 0x07⟩
    else none
  else if x &&& 0xC0 = 0x80 then
    if u.count = 0 then none
    else if u.count = 2 ∧ u.char = 0 ∧ x &&& 0x20 = 0 then none
    else if u.count = 3 ∧ u.char = 0 ∧ x &&& 0x30 = 0 then none
    else some ⟨u.count - 1, (u.char <<< 6) ||| (x &&& 0x3F)⟩
  else none

def illegalCodePoint (char : UInt32) : Bool :=
  (0xD800 ≤ char && char < 0xE000) || 0x110000 ≤ char

/-- The end of a value at a line end. Only a compiled manifest moves behind it. -/
def endOfValue (nType : ManifestType) (c : UInt8) (cs : List UInt8) : List UInt8 × Nat :=
  if nType ≠ .compiled then (c :: cs, 0)
  else if c = charCR then
    match cs with
    | [] => ([], 1)
    | d :: ds => if d = charLF then (ds, 1) else (d :: ds, 1)
  else (cs, 1)

/-- The value loop: `cur` is the distance from the start of the value, `last` the length
up to the last character that is no blank. Gives that length, what is left, and the
number of lines passed. -/
def valueLoop (nType : ManifestType) :
    Utf8State → Nat → Nat → List UInt8 → Option (Nat × List UInt8 × Nat)
  | u, _, last, [] => if u.count ≠ 0 then none else some (last, [], 0)
  | u, cur, last, c :: cs =>
    match utf8Byte u c with
    | none => none
    | some u' =>
      -- a character is complete: surrogates and what lies past U+10FFFF are refused
      if u'.count = 0 ∧ illegalCodePoint u'.char then none
      else if u'.count = 0 ∧ isEol c then
        some (last, (endOfValue nType c cs).1, (endOfValue nType c cs).2)
      else valueLoop nType u' (cur + 1) (if isBlank c then last else cur + 1) cs

/-! ## Items -/

/-- What the scanner finds: the code it returns, the item (`value` is `none` for a
section), what is left and how many lines it has passed. -/
structure Scan where
  nResult : UInt32
  name : List UInt8
  value : Option (List UInt8)
  rest : List UInt8
  lines : Nat
  deriving DecidableEq, Repr

def Scan.error (nResult : UInt32) (rest : List UInt8) (lines : Nat) : Scan :=
  ⟨nResult, [], none, rest, lines⟩

/-- A section header, from behind the opening bracket. -/
def scanSection (n : Nat) (l : Lines) (cs : List UInt8) : Option Scan :=
  match sectionName cs with
  | none => some (.error sErrorBadFormat l.rest l.nLine)
  | some (name, r) =>
    match loop headerPass n r with
    | none => none
    | some r' => some ⟨sSuccess, name, none, r', l.nLine⟩

/-- A property, from the first character of its name. -/
def scanProperty (nType : ManifestType) (l : Lines) (c : UInt8) (cs : List UInt8) : Scan :=
  if checkCharacter c .nameFirst = false then .error sErrorBadFormat l.rest l.nLine
  else
    match nameLoop nType 1 1 cs with
    | none => .error sErrorBadFormat l.rest l.nLine
    | some (nameLength, r) =>
      let v := r.dropWhile isBlank
      match valueLoop nType ⟨0, 0⟩ 0 0 v with
      | none => .error sErrorBadFormat l.rest l.nLine
      | some (valueLength, r', lines) =>
        ⟨sSuccess, (c :: cs).take nameLength, some (v.take valueLength), r', l.nLine + lines⟩

/-- The item that starts behind the comments and empty lines. `hasSection` is whether
`nSectionStartOffset` is set. -/
def scanLine (n : Nat) (nType : ManifestType) (hasSection : Bool) (l : Lines) : Option Scan :=
  if l.failed then some (.error sErrorBadFormat l.rest l.nLine)
  else
    match l.rest with
    | [] => some (.error sErrorItemNotFound [] l.nLine)
    | c :: cs =>
      if nType = .sourceWithSections then
        if c = charOpenBracket then scanSection n l cs
        else if hasSection = false then some (.error sErrorBadFormat l.rest l.nLine)
        else some (scanProperty nType l c cs)
      else some (scanProperty nType l c cs)

/-- The scanner proper. `atStart` is whether the pointer is at the start of the
manifest. -/
def scanItem (n : Nat) (nType : ManifestType) (atStart hasSection : Bool) (rest : List UInt8) :
    Option Scan :=
  match skipLines n nType atStart rest with
  | none => none
  | some l => scanLine n nType hasSection l

/-! ## The parser -/

structure Context where
  nType : ManifestType
  content : List UInt8
  nOffset : Nat
  nLine : Nat
  nSectionStartOffset : Nat
  deriving DecidableEq, Repr

/-- `libManifest2InitContext`, for a manifest of a type. -/
def Context.init (nType : ManifestType) (content : List UInt8) : Context :=
  ⟨nType, content, 0, 1, 0⟩

/-- The code returned and the item, `value` being `none` for a section or a failure. -/
structure Item where
  nResult : UInt32
  name : List UInt8
  value : Option (List UInt8)
  deriving DecidableEq, Repr

/-- The context after a scan. A scan that fails has only counted lines. -/
def Context.after (ctx : Context) (x : Scan) : Context :=
  if x.nResult = sSuccess then
    { ctx with
      nOffset := ctx.content.length - x.rest.length
      nLine := ctx.nLine + x.lines
      nSectionStartOffset :=
        if x.value = none then ctx.content.length - x.rest.length else ctx.nSectionStartOffset }
  else { ctx with nLine := ctx.nLine + x.lines }

/-- `static_libManifest2GetNextItemInternal`. -/
def getNextItemInternal (n : Nat) (ctx : Context) : Option (Item × Context) :=
  match scanItem n ctx.nType (ctx.nOffset == 0) (ctx.nSectionStartOffset != 0)
      (ctx.content.drop ctx.nOffset) with
  | none => none
  | some x => some (⟨x.nResult, x.name, x.value⟩, ctx.after x)

/-- A second item has the name of the first. -/
def isDuplicate (nType : ManifestType) (item dup : Item) : Bool :=
  if nType = .sourceWithSections ∧ item.value = none then
    dup.value == none && sectionNameEqualCaseInsensitive item.name dup.name
  else dup.name == item.name

/-- One pass of the loop over the items before the current one; the flag is set at a
duplicate. -/
def duplicatePass (n nOriginalOffset : Nat) (item : Item) (s : Context × Bool) :
    Option (Flow (Context × Bool)) :=
  if s.1.nOffset < nOriginalOffset then
    match getNextItemInternal n s.1 with
    | none => none
    | some (dup, ctx) =>
      if isDuplicate s.1.nType item dup then some (.stop (ctx, true))
      else some (.next (ctx, false))
  else some (.stop s)

/-- Where the loop over the earlier items starts. -/
def rescanOffset (ctx : Context) (item : Item) : Nat :=
  if ctx.nType = .source then 0
  else if item.value = none then 0
  else ctx.nSectionStartOffset

/-- `libManifest2GetNextItem`. -/
def getNextItem (n : Nat) (ctx : Context) : Option (Item × Context) :=
  match getNextItemInternal n ctx with
  | none => none
  | some (item, ctx') =>
    if ctx.nType = .compiled then some (item, ctx')
    else if item.nResult ≠ sSuccess then some (item, ctx')
    else if ctx.nType = .sourceWithSections ∧ item.value ≠ none ∧ ctx'.nSectionStartOffset = 0 then
      some (⟨sErrorBadFormat, [], none⟩, ctx')
    else
      -- the saved state `ctx'` is restored whatever the loop finds
      match loopM (duplicatePass n ctx.nOffset item) n
          ({ ctx' with nOffset := rescanOffset ctx' item }, false) with
      | none => none
      | some (_, true) => some (⟨sErrorBadFormat, [], none⟩, ctx')
      | some (_, false) => some (item, ctx')

/-- The loop of `libManifest2CheckFormat`: the context, `nPropertyCount`, and the code
once the loop is left. -/
structure Check where
  ctx : Context
  nPropertyCount : Nat
  nResult : UInt32
  deriving DecidableEq, Repr

def checkPass (n : Nat) (s : Check) : Option (Flow Check) :=
  match getNextItem n s.ctx with
  | none => none
  | some (item, ctx) =>
    if item.nResult = sErrorItemNotFound then
      some (.stop { s with ctx := ctx, nResult := sSuccess })
    else if item.nResult ≠ sSuccess then
      some (.stop { s with ctx := ctx, nResult := item.nResult })
    else some (.next { s with ctx := ctx, nPropertyCount := s.nPropertyCount + 1 })

def checkFormat (n : Nat) (nType : ManifestType) (content : List UInt8) : Option Check :=
  loopM (checkPass n) n ⟨.init nType content, 0, sSuccess⟩

end Omap4Hal.Security

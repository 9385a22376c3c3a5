import Omap4Hal.Security.PropertyList

/- The interpretation of the configuration file (`smc_properties_parser.c`): `SMCPropYacc`
   reads item after item with `libManifest2GetNextItem`, and `SMCPropGetSystemProperty`
   looks a system property up.

   A list of properties or of sections is the search tree that its nodes represent
   (`ListRepresents`); `addTo` and `findIn` are `SMCPropListSortedAdd` and
   `SMCPropListFindElement` on it. A section is known by its address. -/
namespace Omap4Hal.Security
open Lib

/-! ## Lists of named objects -/

section Named

variable {α : Type} (pName : α → CString)

/-- `SMCPropListFindElement`. -/
def findIn (t : BinTree α) (name : CString) (bIsCaseSensitive : Bool) : Option α :=
  t.find fun a => compareNames bIsCaseSensitive name (pName a)

/-- `SMCPropListSortedAdd`, of an object with a name. -/
def addTo (t : BinTree α) (x : α) : UInt32 × BinTree α :=
  match t.insert (fun a => strcmp (pName x) (pName a)) x with
  | some t' => (sSuccess, t')
  | none => (sErrorItemExists, t)

end Named

/-! ## The configuration -/

structure Property where
  pName : CString
  pValue : CString
  deriving DecidableEq, Repr

structure ServiceSection where
  pName : CString
  inSCF : Bool := false
  pNextInSCF : Option Nat := none
  sPublicPropertyList : BinTree Property := .leaf
  sPrivatePropertyList : BinTree Property := .leaf

/-- `CONF_FILE`, with the sections that its lists lead to. -/
structure ConfFile where
  sSystemSectionPropertyList : BinTree Property := .leaf
  pFirstSectionInSCF : Option Nat := none
  sDriverSectionList : BinTree Nat
  sPreinstalledSectionList : BinTree Nat
  sSectionList : BinTree Nat
  sections : Nat → ServiceSection

/-- A `LIST*` that leads to properties. -/
inductive ListRef where
  | system
  | publicOf (pServSection : Nat)
  | privateOf (pServSection : Nat)
  deriving DecidableEq, Repr

def ConfFile.list (c : ConfFile) : ListRef → BinTree Property
  | .system => c.sSystemSectionPropertyList
  | .publicOf a => (c.sections a).sPublicPropertyList
  | .privateOf a => (c.sections a).sPrivatePropertyList

def ConfFile.setSection (c : ConfFile) (a : Nat) (v : ServiceSection) : ConfFile :=
  { c with sections := Function.update c.sections a v }

def ConfFile.setList (c : ConfFile) (l : BinTree Property) : ListRef → ConfFile
  | .system => { c with sSystemSectionPropertyList := l }
  | .publicOf a => c.setSection a { c.sections a with sPublicPropertyList := l }
  | .privateOf a => c.setSection a { c.sections a with sPrivatePropertyList := l }

/-! ## SMCPropYacc -/

/-- What a buffer with a zero byte put behind it is as a string. -/
def toCString (bytes : List UInt8) : CString :=
  ⟨bytes.takeWhile (· ≠ 0), fun h => by simpa using List.mem_takeWhile_imp h⟩

def systemSectionName : CString := ⟨[0x47, 0x6C, 0x6F, 0x62, 0x61, 0x6C], by decide⟩

def configPropertyName : List UInt8 := [0x63, 0x6F, 0x6E, 0x66, 0x69, 0x67, 0x2E]

/-- The section that a header names, in the order in which the lists are searched. -/
def ConfFile.findSection (c : ConfFile) (name : CString) : Option Nat :=
  let pName a := (c.sections a).pName
  match findIn pName c.sDriverSectionList name false with
  | some a => some a
  | none =>
    match findIn pName c.sPreinstalledSectionList name false with
    | some a => some a
    | none => findIn pName c.sSectionList name false

/-- The local variables. `nMalloc` counts the allocations made. -/
structure Yacc where
  sParserContext : Context
  conf : ConfFile
  pPublicPropertyList : Option ListRef := none
  pPrivatePropertyList : Option ListRef := none
  pPreviousService : Option Nat := none
  nMalloc : Nat := 0
  nError : UInt32 := sSuccess

/-- `pPublicPropertyList` and `pPrivatePropertyList` as a section header sets them; `none`
if there is no such section. -/
def Yacc.openSection (s : Yacc) (pNameZ : CString) : Option Yacc :=
  if strcasecmp pNameZ systemSectionName = .eq then
    some { s with pPublicPropertyList := some .system }
  else
    match s.conf.findSection pNameZ with
    | none => none
    | some a =>
      let conf := s.conf.setSection a { s.conf.sections a with inSCF := true }
      let conf := match s.pPreviousService with
        | some b => conf.setSection b { conf.sections b with pNextInSCF := some a }
        | none => { conf with pFirstSectionInSCF := some a }
      some { s with
        conf := conf
        pPreviousService := some a
        pPublicPropertyList := some (.publicOf a)
        pPrivatePropertyList := some (.privateOf a) }

/-- The list that a property goes to. The length compared is that of the value. -/
def Yacc.target (s : Yacc) (pNameZ : CString) (nValueLength : Nat) : Option ListRef :=
  match s.pPrivatePropertyList with
  | none => s.pPublicPropertyList
  | some l =>
    if nValueLength > configPropertyName.length ∧ configPropertyName <+: pNameZ.bytes then some l
    else s.pPublicPropertyList

/-- One pass of the loop. `malloc` says which allocations succeed; adding to a list that
is not there has no result. -/
def yaccPass (n : Nat) (malloc : Nat → Bool) (s : Yacc) : Option (Flow Yacc) :=
  match getNextItem n s.sParserContext with
  | none => none
  | some (item, ctx) =>
    let s := { s with sParserContext := ctx, nError := item.nResult }
    if item.nResult = sErrorItemNotFound then some (.stop { s with nError := sSuccess })
    else if item.nResult ≠ sSuccess then some (.stop s)
    else if malloc s.nMalloc = false then some (.stop { s with nError := sErrorOutOfMemory })
    else
      let pNameZ := toCString item.name
      match item.value with
      | none =>
        match { s with nMalloc := s.nMalloc + 1 }.openSection pNameZ with
        | none => some (.stop { s with nError := sErrorItemNotFound })
        | some s' => some (.next s')
      | some value =>
        if malloc (s.nMalloc + 1) = false ∨ malloc (s.nMalloc + 2) = false then
          some (.stop { s with nError := sErrorOutOfMemory })
        else
          let pValueZ := toCString value
          match s.target pNameZ value.length with
          | none => none
          | some ref =>
            let (nError, l) := addTo Property.pName (s.conf.list ref) ⟨pNameZ, pValueZ⟩
            let s :=
              { s with conf := s.conf.setList l ref, nMalloc := s.nMalloc + 3, nError := nError }
            if nError ≠ sSuccess then some (.stop s) else some (.next s)

def smcPropYacc (n : Nat) (malloc : Nat → Bool) (pBuffer : List UInt8) (conf : ConfFile) :
    Option (UInt32 × ConfFile) :=
  (loopM (yaccPass n malloc) n
    { sParserContext := .init .sourceWithSections pBuffer, conf := conf }).map
      fun s => (s.nError, s.conf)

def smcPropGetSystemProperty (conf : ConfFile) (pPropertyName : CString) : Option CString :=
  (findIn Property.pName conf.sSystemSectionPropertyList pPropertyName true).map Property.pValue

end Omap4Hal.Security

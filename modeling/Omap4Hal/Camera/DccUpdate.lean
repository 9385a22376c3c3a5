import Mathlib.Algebra.Group.Nat.Defs
import Mathlib.Data.Fin.VecNotation
import Omap4Hal.Lib.ByteWords
import Omap4Hal.Lib.FileTree

/- The DCC file of a camera is updated with data that were captured
   (camera/OMXCameraAdapter/OMXDccDataSave.cpp). The file is looked for in a directory tree, whose
   paths are all built in one buffer; the place in the file is the offset of a use case and an
   offset in it. The search is one in directory order (`parse_eq`), and only the file that it finds
   is touched. But the two offsets are added in 32 bits (`save_iff`).

   The layout of the captured record is not in the headers of this repository: the offset of
   `pData` in it is an argument. -/
namespace Omap4Hal.Camera.DccUpdate

open Lib
open List (append_assoc length_append length_singleton mem_cons_of_mem mem_cons_self prefix_append
  replicate)
open FileTree

/-! ## The captured record -/

def dccDataSize (nSize pDataOffset : UInt32) : Int32 := nSize.toInt32 - pDataOffset.toInt32

/-- `mDccData`, with the data that `sniffDccFileDataSave` has copied. -/
structure DccData (pDataOffset : UInt32) where
  nSize : UInt32
  /-- The words from `nCameraModuleId` on. -/
  dccFileDesc : Fin 3 → UInt32
  nUseCaseId : UInt32
  nOffset : UInt32
  pData : List UInt8
  captured : (pData.length : Int) = (dccDataSize nSize pDataOffset).toInt

/-! ## The search -/

/-- `fread` of a word. -/
def wordFrom (bytes : List UInt8) (pos : Nat) : Option UInt32 :=
  if pos + 4 ≤ bytes.length then some (wordAt (bytesOfList bytes) pos) else none

def isDccFile (dccFileDesc : Fin 3 → UInt32) (bytes : List UInt8) : Bool :=
  (List.finRange 3).all fun i => wordFrom bytes (4 * i) == some (dccFileDesc i)

/-- `char dccPath[260]` -/
def pathSize : Nat := 260

def strcat (path s : List Char) : Option (List Char) :=
  if path.length + s.length < pathSize then some (path ++ s) else none

/-- The `FILE` of the search. -/
structure Stream where
  path : List FileName
  bytes : List UInt8

section Search

variable (root : FileTree) (dccFileDesc : Fin 3 → UInt32)

def opendir (path : List Char) : Option FileTree :=
  match root.lookup (components path) with
  | some (.dir true sub) => some sub
  | _ => none

/-- For reading. -/
def fopen (path : List Char) : Option File :=
  match root.lookup (components path) with
  | some (.file f) => if f.readable then some f else none
  | _ => none

def readdir : FileTree → Option (FileName × FileTree)
  | .nil => none
  | .dir name _ _ rest => some (name, rest)
  | .file name _ rest => some (name, rest)

def hidden (name : FileName) : Bool := name.head? == some '.'

/-- `OMXCameraAdapter::parseDCCsubDir` and the path it leaves, with a number of entries to spend. -/
def parseDCCsubDir : Nat → FileTree → Nat → List Char → Option (Option Stream × List Char)
  | 0, _, _, _ => none
  | fuel + 1, pDir, initialPathLength, path =>
    match readdir pDir with
    | none => some (none, path)
    | some (d_name, pDir) =>
      if hidden d_name then parseDCCsubDir fuel pDir initialPathLength path
      else
        match strcat path d_name with
        | none => none
        | some path =>
          match opendir root path with
          | some pSubDir =>
            match strcat path ['/'] with
            | none => none
            | some path =>
              match parseDCCsubDir fuel pSubDir path.length path with
              | none => none
              | some (some pFile, path) => some (some pFile, path)
              | some (none, path) =>
                parseDCCsubDir fuel pDir initialPathLength (path.take initialPathLength)
          | none =>
            match fopen root path with
            | some f =>
              if isDccFile dccFileDesc f.bytes then
                -- it is opened again for reading and writing, and this result returned
                some (if f.writable then some ⟨components path, f.bytes⟩ else none, path)
              else parseDCCsubDir fuel pDir initialPathLength (path.take initialPathLength)
            | none => parseDCCsubDir fuel pDir initialPathLength (path.take initialPathLength)

def fopenCameraDCC (dccFolderPath : List Char) (fuel : Nat) : Option (Option Stream) :=
  match strcat [] dccFolderPath with
  | none => none
  | some dccPath =>
    match opendir root dccPath with
    | none => some none
    | some pDir =>
      (parseDCCsubDir root dccFileDesc fuel pDir dccPath.length dccPath).map Prod.fst

end Search

/-! ## The update -/

section Update

variable {pDataOffset : UInt32}

/-- The offset of a use case, in a number of entries from a position on. -/
def findUseCase (bytes : List UInt8) (nUseCaseId : UInt32) : Nat → Nat → Option UInt32
  | 0, _ => none
  | n + 1, pos =>
    if pos + 12 ≤ bytes.length then
      if wordAt (bytesOfList bytes) pos = nUseCaseId then
        some (wordAt (bytesOfList bytes) (pos + 4))
      else findUseCase bytes nUseCaseId n (pos + 12)
    else none

/-- The offset of the use case in the table of a file. -/
def useCaseOffset (bytes : List UInt8) (nUseCaseId : UInt32) : Option UInt32 :=
  match wordFrom bytes 80 with
  | none => none
  | some dccNumUseCases =>
    if dccNumUseCases = 0 then none
    else findUseCase bytes nUseCaseId dccNumUseCases.toNat 84

/-- `OMXCameraAdapter::fseekDCCuseCasePos`: the position, if `fseek` does not fail. Its argument is
a `long`. -/
def fseekDCCuseCasePos (x : DccData pDataOffset) (bytes : List UInt8) : Option Nat :=
  match useCaseOffset bytes x.nUseCaseId with
  | none => none
  | some offset =>
    if (offset + x.nOffset).toNat < 2 ^ 31 then some (offset + x.nOffset).toNat else none

/-- What is between the end of the file and the position is zeros. -/
def fwrite (bytes : List UInt8) (pos : Nat) (data : List UInt8) : List UInt8 :=
  if data = [] then bytes
  else bytes.take pos ++ replicate (pos - bytes.length) 0 ++ data ++
    bytes.drop (pos + data.length)

/-- `OMXCameraAdapter::saveDccFileDataSave` for a record that was captured. -/
def saveDccFileDataSave (root : FileTree) (dccFolderPath : List Char) (x : DccData pDataOffset)
    (fuel : Nat) : Option FileTree :=
  (fopenCameraDCC root x.dccFileDesc dccFolderPath fuel).map fun
    | none => root
    | some fd =>
      match fseekDCCuseCasePos x fd.bytes with
      | none => root
      | some pos =>
        root.write fd.path
          (fwrite fd.bytes pos (x.pData.take (dccDataSize x.nSize pDataOffset).toInt.toNat))

end Update

/-! ## Directory order -/

/-- The files that are visited, with their paths from the directory on. -/
def files : FileTree → List (List FileName × File)
  | .nil => []
  | .dir name opens sub rest =>
    if hidden name then files rest
    else if opens then ((files sub).map fun e => (name :: e.1, e.2)) ++ files rest
    else files rest
  | .file name f rest => if hidden name then files rest else ([name], f) :: files rest

/-- The file can be read, and has the words of the camera. -/
def Matches (dccFileDesc : Fin 3 → UInt32) (f : File) : Prop :=
  f.readable = true ∧ isDccFile dccFileDesc f.bytes = true

/-- The search, without paths. A file that cannot be opened again ends the search of its
directory. -/
def search (dccFileDesc : Fin 3 → UInt32) : FileTree → Option (List FileName × File)
  | .nil => none
  | .dir name opens sub rest =>
    if hidden name then search dccFileDesc rest
    else if opens then
      match search dccFileDesc sub with
      | some e => some (name :: e.1, e.2)
      | none => search dccFileDesc rest
    else search dccFileDesc rest
  | .file name f rest =>
    if hidden name then search dccFileDesc rest
    else if f.readable && isDccFile dccFileDesc f.bytes then
      if f.writable then some ([name], f) else none
    else search dccFileDesc rest

/-- The paths of a directory fit the buffer behind `k` characters. -/
def Fits (k : Nat) : FileTree → Prop
  | .nil => True
  | .dir name opens sub rest =>
    (hidden name = false → k + name.length < pathSize ∧
      (opens = true → k + name.length + 1 < pathSize ∧ Fits (k + name.length + 1) sub)) ∧
    Fits k rest
  | .file name _ rest => (hidden name = false → k + name.length < pathSize) ∧ Fits k rest

variable {dccFileDesc : Fin 3 → UInt32} {t : FileTree} {p : List FileName} {f : File}

theorem search_none (h : search dccFileDesc t = none)
    (hwritable : ∀ g ∈ files t, Matches dccFileDesc g.2 → g.2.writable = true) :
    ∀ g ∈ files t, ¬ Matches dccFileDesc g.2 := by
  induction t with
  | nil => exact fun g hg => absurd hg List.not_mem_nil
  | dir name opens sub rest ihSub ihRest =>
    rw [search] at h
    rw [files] at hwritable ⊢
    by_cases hhid : hidden name = true
    · rw [if_pos hhid] at h hwritable ⊢
      exact ihRest h hwritable
    · rw [if_neg hhid] at h hwritable ⊢
      by_cases hopens : opens = true
      · rw [if_pos hopens] at h hwritable ⊢
        cases hsub : search dccFileDesc sub with
        | some e =>
          rw [hsub] at h
          cases h
        | none =>
          rw [hsub] at h
          have hsub' := ihSub hsub fun g hg => hwritable (name :: g.1, g.2)
            (List.mem_append_left _ (List.mem_map_of_mem hg))
          have hrest := ihRest h fun g hg => hwritable g (List.mem_append_right _ hg)
          intro g hg
          rcases List.mem_append.mp hg with hg | hg
          · obtain ⟨e, he, rfl⟩ := List.mem_map.mp hg
            exact hsub' e he
          · exact hrest g hg
      · rw [if_neg hopens] at h hwritable ⊢
        exact ihRest h hwritable
  | file name f rest ih =>
    rw [search] at h
    rw [files] at hwritable ⊢
    by_cases hhid : hidden name = true
    · rw [if_pos hhid] at h hwritable ⊢
      exact ih h hwritable
    · rw [if_neg hhid] at h hwritable ⊢
      by_cases hmatch : (f.readable && isDccFile dccFileDesc f.bytes) = true
      · have hfile := hwritable ([name], f) mem_cons_self (Bool.and_eq_true_iff.mp hmatch)
        rw [if_pos hmatch, if_pos hfile] at h
        cases h
      · rw [if_neg hmatch] at h
        intro g hg
        rcases List.mem_cons.mp hg with rfl | hg
        · exact fun hm => hmatch (Bool.and_eq_true_iff.mpr hm)
        · exact ih h (fun g hg => hwritable g (mem_cons_of_mem _ hg)) g hg

/-- The file that is found matches and can be written; it is the first that matches, or one before
it matches but cannot be written. -/
theorem search_some (h : search dccFileDesc t = some (p, f)) :
    ∃ pre suf, files t = pre ++ (p, f) :: suf ∧ Matches dccFileDesc f ∧ f.writable = true ∧
      ((∀ g ∈ pre, Matches dccFileDesc g.2 → g.2.writable = true) →
        ∀ g ∈ pre, ¬ Matches dccFileDesc g.2) := by
  induction t generalizing p with
  | nil => cases h
  | dir name opens sub rest ihSub ihRest =>
    rw [search] at h
    rw [files]
    by_cases hhid : hidden name = true
    · rw [if_pos hhid] at h ⊢
      exact ihRest h
    · rw [if_neg hhid] at h ⊢
      by_cases hopens : opens = true
      · rw [if_pos hopens] at h ⊢
        cases hsub : search dccFileDesc sub with
        | some e =>
          rw [hsub] at h
          cases Option.some.inj h
          obtain ⟨pre, suf, hfiles, hmatch, hwrite, hfirst⟩ := ihSub hsub
          refine ⟨pre.map fun e => (name :: e.1, e.2),
            (suf.map fun e => (name :: e.1, e.2)) ++ files rest, ?_, hmatch, hwrite, ?_⟩
          · rw [hfiles, List.map_append, List.map_cons, append_assoc, List.cons_append]
          · simp only [List.forall_mem_map]
            exact hfirst
        | none =>
          rw [hsub] at h
          obtain ⟨pre, suf, hfiles, hmatch, hwrite, hfirst⟩ := ihRest h
          refine ⟨(files sub).map (fun e => (name :: e.1, e.2)) ++ pre, suf, ?_, hmatch, hwrite, ?_⟩
          · rw [hfiles, append_assoc]
          · simp only [List.forall_mem_append, List.forall_mem_map]
            exact fun hwritable => ⟨search_none hsub hwritable.1, hfirst hwritable.2⟩
      · rw [if_neg hopens] at h ⊢
        exact ihRest h
  | file name f' rest ih =>
    rw [search] at h
    rw [files]
    by_cases hhid : hidden name = true
    · rw [if_pos hhid] at h ⊢
      exact ih h
    · rw [if_neg hhid] at h ⊢
      by_cases hmatch : (f'.readable && isDccFile dccFileDesc f'.bytes) = true
      · rw [if_pos hmatch] at h
        by_cases hwrite : f'.writable = true
        · rw [if_pos hwrite] at h
          cases Option.some.inj h
          exact ⟨[], files rest, rfl, Bool.and_eq_true_iff.mp hmatch, hwrite, by simp⟩
        · rw [if_neg hwrite] at h
          cases h
      · rw [if_neg hmatch] at h
        obtain ⟨pre, suf, hfiles, hm, hwrite, hfirst⟩ := ih h
        refine ⟨([name], f') :: pre, suf, by rw [hfiles, List.cons_append], hm, hwrite, ?_⟩
        simp only [List.forall_mem_cons]
        exact fun hwritable =>
          ⟨fun hm' => hmatch (Bool.and_eq_true_iff.mpr hm'), hfirst hwritable.2⟩

variable {root s : FileTree} {base : List FileName}

theorem lookup_of_search (hroot : root.Proper) (hs : root.Listed base s)
    (h : search dccFileDesc s = some (p, f)) : root.lookup (base ++ p) = some (.file f) := by
  induction s generalizing base p with
  | nil => cases h
  | dir name opens sub rest ihSub ihRest =>
    have hrest : root.Listed base rest := fun e he => hs e (mem_cons_of_mem _ he)
    have hdir := hs (name, .dir opens sub) mem_cons_self
    rw [search] at h
    by_cases hhid : hidden name = true
    · rw [if_pos hhid] at h
      exact ihRest hrest h
    · rw [if_neg hhid] at h
      by_cases hopens : opens = true
      · rw [if_pos hopens] at h
        cases hsub : search dccFileDesc sub with
        | some e =>
          rw [hsub] at h
          cases Option.some.inj h
          have hfile := ihSub (listed_of_lookup hroot hdir.2) hsub
          rwa [append_assoc] at hfile
        | none =>
          rw [hsub] at h
          exact ihRest hrest h
      · rw [if_neg hopens] at h
        exact ihRest hrest h
  | file name f' rest ih =>
    have hrest : root.Listed base rest := fun e he => hs e (mem_cons_of_mem _ he)
    have hfile := hs (name, .file f') mem_cons_self
    rw [search] at h
    by_cases hhid : hidden name = true
    · rw [if_pos hhid] at h
      exact ih hrest h
    · rw [if_neg hhid] at h
      by_cases hmatch : (f'.readable && isDccFile dccFileDesc f'.bytes) = true
      · rw [if_pos hmatch] at h
        by_cases hwrite : f'.writable = true
        · rw [if_pos hwrite] at h
          cases Option.some.inj h
          exact hfile.2
        · rw [if_neg hwrite] at h
          cases h
      · rw [if_neg hmatch] at h
        exact ih hrest h

/-! ## The search with paths -/

variable {path : List Char}

theorem strcat_of_lt {name : List Char} (h : path.length + name.length < pathSize) :
    strcat path name = some (path ++ name) := if_pos h

theorem opendir_dir {opens : Bool} {sub : FileTree}
    (h : root.lookup (components path) = some (.dir opens sub)) :
    opendir root path = if opens = true then some sub else none := by
  rw [opendir, h]
  cases opens <;> rfl

theorem opendir_file (h : root.lookup (components path) = some (.file f)) :
    opendir root path = none := by
  rw [opendir, h]

theorem fopen_dir {opens : Bool} {sub : FileTree}
    (h : root.lookup (components path) = some (.dir opens sub)) : fopen root path = none := by
  rw [fopen, h]

theorem fopen_file (h : root.lookup (components path) = some (.file f)) :
    fopen root path = if f.readable = true then some f else none := by
  rw [fopen, h]

/-- `path[initialPathLength] = '\0'` -/
theorem take_path {path' : List Char} (h : path ++ ['/'] <+: path') :
    path'.take (path.length + 1) = path ++ ['/'] := by
  have htake := List.prefix_iff_eq_take.mp h
  rw [length_append, length_singleton] at htake
  exact htake.symm

/-- The search with paths is the one without them; the path that it leaves starts with the one
that it was given. -/
theorem parse_eq (dccFileDesc : Fin 3 → UInt32) (hroot : root.Proper) {fuel : Nat}
    (hs : root.Listed (components (path ++ ['/'])) s) (hfits : Fits (path.length + 1) s)
    (hfuel : s.size < fuel) :
    ∃ path', path ++ ['/'] <+: path' ∧
      parseDCCsubDir root dccFileDesc fuel s (path.length + 1) (path ++ ['/']) =
        some ((search dccFileDesc s).map fun e =>
          ⟨components (path ++ ['/']) ++ e.1, e.2.bytes⟩, path') := by
  induction s generalizing path fuel with
  | nil =>
    obtain ⟨fuel, rfl⟩ := Nat.exists_eq_succ_of_ne_zero (Nat.ne_of_gt hfuel)
    exact ⟨_, List.prefix_rfl, rfl⟩
  | dir name opens sub rest ihSub ihRest =>
    obtain ⟨fuel, rfl⟩ := Nat.exists_eq_succ_of_ne_zero (Nat.ne_of_gt (Nat.zero_lt_of_lt hfuel))
    have hrest : root.Listed (components (path ++ ['/'])) rest :=
      fun e he => hs e (mem_cons_of_mem _ he)
    obtain ⟨hname, hdir⟩ := hs (name, .dir opens sub) mem_cons_self
    have hrestSize : rest.size < fuel := by
      simp only [size] at hfuel
      omega
    have hnext := ihRest hrest hfits.2 hrestSize
    simp only [parseDCCsubDir, readdir, search]
    by_cases hhid : hidden name = true
    · rw [if_pos hhid, if_pos hhid]
      exact hnext
    · obtain ⟨hfit, hsubFits⟩ := hfits.1 (Bool.eq_false_iff.mpr hhid)
      have hcat : strcat (path ++ ['/']) name = some (path ++ ['/'] ++ name) := by
        refine strcat_of_lt ?_
        rwa [length_append, length_singleton]
      have hcomp : components (path ++ ['/'] ++ name) = components (path ++ ['/']) ++ [name] :=
        components_append_name hname
      rw [← hcomp] at hdir
      rw [if_neg hhid, if_neg hhid, hcat]
      simp only [opendir_dir hdir, fopen_dir hdir]
      by_cases hopens : opens = true
      · obtain ⟨hslash, hfitsSub⟩ := hsubFits hopens
        have hlen : (path ++ ['/'] ++ name).length = path.length + 1 + name.length := by
          rw [length_append, length_append, length_singleton]
        have hcat' : strcat (path ++ ['/'] ++ name) ['/'] =
            some (path ++ ['/'] ++ name ++ ['/']) := by
          refine strcat_of_lt ?_
          rwa [hlen, length_singleton]
        have hlisted : root.Listed (components (path ++ ['/'] ++ name ++ ['/'])) sub := by
          rw [components_append_slash]
          exact listed_of_lookup hroot hdir
        have hsubSize : sub.size < fuel := by
          simp only [size] at hfuel
          omega
        obtain ⟨path', hpre, hrun⟩ := ihSub hlisted (by rwa [hlen]) hsubSize
        have hlen' : (path ++ ['/'] ++ name).length + 1 =
            (path ++ ['/'] ++ name ++ ['/']).length := by
          simp only [length_append, length_singleton]
        rw [hlen'] at hrun
        have hpath : path ++ ['/'] <+: path' := by
          refine List.IsPrefix.trans ?_ hpre
          rw [append_assoc (path ++ ['/'])]
          exact prefix_append _ _
        rw [if_pos hopens, if_pos hopens]
        simp only [hcat', hrun]
        cases hsub : search dccFileDesc sub with
        | some e =>
          refine ⟨path', hpath, ?_⟩
          rw [(components_append_slash _).trans hcomp, Option.map_some, Option.map_some,
            append_assoc, List.singleton_append]
        | none =>
          simp only [Option.map_none, take_path hpath]
          exact hnext
      · rw [if_neg hopens, if_neg hopens]
        simp only [take_path (prefix_append (path ++ ['/']) name)]
        exact hnext
  | file name f' rest ih =>
    obtain ⟨fuel, rfl⟩ := Nat.exists_eq_succ_of_ne_zero (Nat.ne_of_gt (Nat.zero_lt_of_lt hfuel))
    have hrest : root.Listed (components (path ++ ['/'])) rest :=
      fun e he => hs e (mem_cons_of_mem _ he)
    obtain ⟨hname, hfile⟩ := hs (name, .file f') mem_cons_self
    have hrestSize : rest.size < fuel := by
      simp only [size] at hfuel
      omega
    have hnext := ih hrest hfits.2 hrestSize
    simp only [parseDCCsubDir, readdir, search]
    by_cases hhid : hidden name = true
    · rw [if_pos hhid, if_pos hhid]
      exact hnext
    · have hfit := hfits.1 (Bool.eq_false_iff.mpr hhid)
      have hcat : strcat (path ++ ['/']) name = some (path ++ ['/'] ++ name) := by
        refine strcat_of_lt ?_
        rwa [length_append, length_singleton]
      have hcomp : components (path ++ ['/'] ++ name) = components (path ++ ['/']) ++ [name] :=
        components_append_name hname
      rw [← hcomp] at hfile
      rw [if_neg hhid, if_neg hhid, hcat]
      simp only [opendir_file hfile, fopen_file hfile]
      by_cases hread : f'.readable = true
      · rw [if_pos hread]
        by_cases hmatch : isDccFile dccFileDesc f'.bytes = true
        · refine ⟨path ++ ['/'] ++ name, prefix_append _ _, ?_⟩
          simp only [hread, hmatch, Bool.and_self, if_true, hcomp]
          cases f'.writable <;> rfl
        · simp only [hread, hmatch, Bool.true_and, Bool.false_eq_true, if_false,
            take_path (prefix_append (path ++ ['/']) name)]
          exact hnext
      · rw [if_neg hread]
        simp only [hread, Bool.false_and, Bool.false_eq_true, if_false,
          take_path (prefix_append (path ++ ['/']) name)]
        exact hnext

/-! ## What is asked of the update -/

/-- The file that the search finds. -/
def selected (root : FileTree) (dccFileDesc : Fin 3 → UInt32) (dccFolderPath : List Char) :
    Option (List FileName × File) :=
  ((opendir root dccFolderPath).bind (search dccFileDesc)).map fun e =>
    (components dccFolderPath ++ e.1, e.2)

/-- A file with the words of the camera that can be written: the first one in directory order, or a
matching one before it cannot be opened again. -/
def Chosen (root : FileTree) (dccFileDesc : Fin 3 → UInt32) (dccFolderPath : List Char)
    (p : List FileName) (f : File) : Prop :=
  ∃ t pre suf rel, opendir root dccFolderPath = some t ∧ files t = pre ++ (rel, f) :: suf ∧
    p = components dccFolderPath ++ rel ∧ Matches dccFileDesc f ∧ f.writable = true ∧
    ((∀ g ∈ pre, Matches dccFileDesc g.2 → g.2.writable = true) →
      ∀ g ∈ pre, ¬ Matches dccFileDesc g.2)

/-- The first entry of the table with the number has the offset `u`. -/
def UseCase (bytes : List UInt8) (nUseCaseId u : UInt32) : Prop :=
  ∃ dccNumUseCases, wordFrom bytes 80 = some dccNumUseCases ∧
    ∃ k < dccNumUseCases.toNat, 84 + 12 * k + 12 ≤ bytes.length ∧
      wordAt (bytesOfList bytes) (84 + 12 * k) = nUseCaseId ∧
      wordAt (bytesOfList bytes) (84 + 12 * k + 4) = u ∧
      ∀ j < k, wordAt (bytesOfList bytes) (84 + 12 * j) ≠ nUseCaseId

/-- The bytes from a position on are the data, and no other byte is changed. -/
structure Overwritten (bytes bytes' : List UInt8) (pos : Nat) (data : List UInt8) : Prop where
  payload : ∀ i < data.length, bytes'[pos + i]? = data[i]?
  outside : ∀ i < bytes.length, i < pos ∨ pos + data.length ≤ i → bytes'[i]? = bytes[i]?
  length : bytes'.length = if data = [] then bytes.length else max bytes.length (pos + data.length)

section Results

variable {pDataOffset : UInt32} {x : DccData pDataOffset}

structure Right (root : FileTree) (dccFolderPath : List Char) (x : DccData pDataOffset)
    (after : FileTree) : Prop where
  touched : (∀ q, after.fileAt q = root.fileAt q) ∨
    ∃ p f u bytes', Chosen root x.dccFileDesc dccFolderPath p f ∧
      UseCase f.bytes x.nUseCaseId u ∧ root.fileAt p = some f.bytes ∧
      after.fileAt p = some bytes' ∧
      Overwritten f.bytes bytes' (u.toNat + x.nOffset.toNat) x.pData ∧
      ∀ q, q ≠ p → after.fileAt q = root.fileAt q
  written : ∀ p f u, selected root x.dccFileDesc dccFolderPath = some (p, f) →
    UseCase f.bytes x.nUseCaseId u → u.toNat + x.nOffset.toNat < 2 ^ 31 →
    ∃ bytes', after.fileAt p = some bytes' ∧
      Overwritten f.bytes bytes' (u.toNat + x.nOffset.toNat) x.pData
  noWrap : ∀ p f u, selected root x.dccFileDesc dccFolderPath = some (p, f) →
    UseCase f.bytes x.nUseCaseId u → (u + x.nOffset).toNat = u.toNat + x.nOffset.toNat

/-! ## Results -/

variable {bytes : List UInt8} {nUseCaseId u : UInt32}

theorem findUseCase_eq_some {n pos : Nat} :
    findUseCase bytes nUseCaseId n pos = some u ↔
      ∃ k < n, pos + 12 * k + 12 ≤ bytes.length ∧
        wordAt (bytesOfList bytes) (pos + 12 * k) = nUseCaseId ∧
        wordAt (bytesOfList bytes) (pos + 12 * k + 4) = u ∧
        ∀ j < k, wordAt (bytesOfList bytes) (pos + 12 * j) ≠ nUseCaseId := by
  have hstep : ∀ i pos : Nat, pos + 12 * (i + 1) = pos + 12 + 12 * i := fun i pos => by omega
  induction n generalizing pos with
  | zero => simp [findUseCase]
  | succ n ih =>
    rw [findUseCase]
    by_cases hinside : pos + 12 ≤ bytes.length
    · rw [if_pos hinside]
      by_cases hid : wordAt (bytesOfList bytes) pos = nUseCaseId
      · rw [if_pos hid, Option.some.injEq]
        constructor
        · rintro rfl
          exact ⟨0, Nat.succ_pos n, hinside, hid, rfl, fun j hj => absurd hj (Nat.not_lt_zero j)⟩
        · rintro ⟨k, -, -, -, hu, hfirst⟩
          cases k with
          | zero => exact hu
          | succ k => exact absurd hid (hfirst 0 (Nat.succ_pos k))
      · have hrest : findUseCase bytes nUseCaseId n (pos + 12) = some u ↔ _ := ih
        rw [if_neg hid, hrest]
        constructor
        · rintro ⟨k, hk, hin, hword, hu, hfirst⟩
          refine ⟨k + 1, Nat.succ_lt_succ hk, ?_, ?_, ?_, ?_⟩
          · rwa [hstep]
          · rwa [hstep]
          · rwa [hstep]
          · intro j hj
            cases j with
            | zero => exact hid
            | succ j =>
              rw [hstep]
              exact hfirst j (Nat.lt_of_succ_lt_succ hj)
        · rintro ⟨k, hk, hin, hword, hu, hfirst⟩
          cases k with
          | zero => exact absurd hword hid
          | succ k =>
            rw [hstep] at hin hword hu
            refine ⟨k, Nat.lt_of_succ_lt_succ hk, hin, hword, hu, fun j hj => ?_⟩
            rw [← hstep]
            exact hfirst (j + 1) (Nat.succ_lt_succ hj)
    · rw [if_neg hinside]
      refine iff_of_false (by simp) ?_
      rintro ⟨k, -, hin, -⟩
      omega

theorem useCaseOffset_eq_some :
    useCaseOffset bytes nUseCaseId = some u ↔ UseCase bytes nUseCaseId u := by
  rw [useCaseOffset, UseCase]
  cases wordFrom bytes 80 with
  | none => simp
  | some dccNumUseCases =>
    by_cases hzero : dccNumUseCases = 0
    · simp [hzero]
    · simp only [if_neg hzero, findUseCase_eq_some, Option.some.injEq, exists_eq_left']

theorem fwrite_overwritten (bytes : List UInt8) (pos : Nat) (data : List UInt8) :
    Overwritten bytes (fwrite bytes pos data) pos data := by
  rw [fwrite]
  by_cases hdata : data = []
  · rw [if_pos hdata, hdata]
    exact ⟨fun i hi => absurd hi (Nat.not_lt_zero i), fun _ _ _ => rfl, (if_pos rfl).symm⟩
  · have hstart : (bytes.take pos ++ replicate (pos - bytes.length) 0).length = pos := by
      rw [length_append, List.length_take, List.length_replicate]
      omega
    rw [if_neg hdata]
    constructor
    · intro i hi
      rw [append_assoc, List.getElem?_append_right (by omega), hstart,
        Nat.add_sub_cancel_left, List.getElem?_append_left hi]
    · rintro i hi (hlt | hge)
      · rw [append_assoc, append_assoc, List.getElem?_append_left
          (by rw [List.length_take]; omega), List.getElem?_take_of_lt hlt]
      · have hfront : (bytes.take pos ++ replicate (pos - bytes.length) 0 ++ data).length =
            pos + data.length := by rw [length_append, hstart]
        rw [List.getElem?_append_right (by omega), hfront, List.getElem?_drop]
        congr 1
        omega
    · rw [if_neg hdata, length_append, length_append, hstart, List.length_drop]
      omega

theorem take_pData (x : DccData pDataOffset) :
    x.pData.take (dccDataSize x.nSize pDataOffset).toInt.toNat = x.pData := by
  rw [← x.captured, Int.toNat_natCast, List.take_length]

/-- What `saveDccFileDataSave` comes to. -/
def saved (root : FileTree) (dccFolderPath : List Char) (x : DccData pDataOffset) : FileTree :=
  match selected root x.dccFileDesc dccFolderPath with
  | none => root
  | some (p, f) =>
    match fseekDCCuseCasePos x f.bytes with
    | none => root
    | some pos => root.write p (fwrite f.bytes pos x.pData)

variable {path : List Char}

theorem opendir_eq_some {sub : FileTree} :
    opendir root path = some sub ↔ root.lookup (components path) = some (.dir true sub) := by
  rw [opendir]
  split
  next sub' h => rw [h, Option.some.injEq, Option.some.injEq, Entry.dir.injEq, and_iff_right rfl]
  next hno => exact iff_of_false (by simp) (hno sub)

theorem fopenCameraDCC_eq (hroot : root.Proper) (hlen : path.length + 1 < pathSize)
    (hfits : ∀ t, opendir root (path ++ ['/']) = some t → Fits (path.length + 1) t) {fuel : Nat}
    (hfuel : ∀ t, opendir root (path ++ ['/']) = some t → t.size < fuel) :
    fopenCameraDCC root dccFileDesc (path ++ ['/']) fuel =
      some ((selected root dccFileDesc (path ++ ['/'])).map fun e => ⟨e.1, e.2.bytes⟩) := by
  have hlength : (path ++ ['/']).length = path.length + 1 := by
    rw [length_append, length_singleton]
  have hcopy : strcat [] (path ++ ['/']) = some (path ++ ['/']) := by
    refine strcat_of_lt ?_
    rwa [List.length_nil, Nat.zero_add, hlength]
  rw [fopenCameraDCC, selected, hcopy]
  cases hopen : opendir root (path ++ ['/']) with
  | none => simp only [hopen, Option.bind_none, Option.map_none]
  | some t =>
    have hlisted := listed_of_lookup hroot (opendir_eq_some.mp hopen)
    obtain ⟨path', -, hrun⟩ :=
      parse_eq dccFileDesc hroot hlisted (hfits t hopen) (hfuel t hopen)
    simp only [hopen, hlength, hrun, Option.bind_some, Option.map_some, Option.map_map]
    rfl

theorem save_eq (hroot : root.Proper) (hlen : path.length + 1 < pathSize)
    (hfits : ∀ t, opendir root (path ++ ['/']) = some t → Fits (path.length + 1) t) {fuel : Nat}
    (hfuel : ∀ t, opendir root (path ++ ['/']) = some t → t.size < fuel) :
    saveDccFileDataSave root (path ++ ['/']) x fuel = some (saved root (path ++ ['/']) x) := by
  rw [saveDccFileDataSave, fopenCameraDCC_eq hroot hlen hfits hfuel, saved, Option.map_some]
  cases selected root x.dccFileDesc (path ++ ['/']) with
  | none => rfl
  | some e =>
    simp only [Option.map_some, take_pData]

theorem chosen_of_selected (h : selected root dccFileDesc path = some (p, f)) :
    Chosen root dccFileDesc path p f := by
  obtain ⟨⟨rel, f'⟩, hbind, heq⟩ := Option.map_eq_some_iff.mp h
  cases heq
  obtain ⟨t, hopen, hsearch⟩ := Option.bind_eq_some_iff.mp hbind
  obtain ⟨pre, suf, hfiles, hmatch, hwrite, hfirst⟩ := search_some hsearch
  exact ⟨t, pre, suf, rel, hopen, hfiles, rfl, hmatch, hwrite, hfirst⟩

theorem fileAt_of_selected (hroot : root.Proper)
    (h : selected root dccFileDesc path = some (p, f)) : root.fileAt p = some f.bytes := by
  obtain ⟨⟨rel, f'⟩, hbind, heq⟩ := Option.map_eq_some_iff.mp h
  cases heq
  obtain ⟨t, hopen, hsearch⟩ := Option.bind_eq_some_iff.mp hbind
  have hlisted := listed_of_lookup hroot (opendir_eq_some.mp hopen)
  exact fileAt_of_lookup (lookup_of_search hroot hlisted hsearch)

/-- The update writes at the sum of the offsets, if it is less than 2 GiB, and otherwise nothing. -/
theorem saved_cases (hsum : ∀ p f u,
      selected root x.dccFileDesc path = some (p, f) → UseCase f.bytes x.nUseCaseId u →
        u.toNat + x.nOffset.toNat < 2 ^ 32) :
    (saved root path x = root ∧ ∀ p f u, selected root x.dccFileDesc path = some (p, f) →
      UseCase f.bytes x.nUseCaseId u → 2 ^ 31 ≤ u.toNat + x.nOffset.toNat) ∨
    ∃ p f u, selected root x.dccFileDesc path = some (p, f) ∧ UseCase f.bytes x.nUseCaseId u ∧
      saved root path x =
        root.write p (fwrite f.bytes (u.toNat + x.nOffset.toNat) x.pData) := by
  rw [saved]
  cases hsel : selected root x.dccFileDesc path with
  | none => exact Or.inl ⟨rfl, by simp⟩
  | some e =>
    obtain ⟨p, f⟩ := e
    simp only [fseekDCCuseCasePos]
    cases hcase : useCaseOffset f.bytes x.nUseCaseId with
    | none =>
      refine Or.inl ⟨rfl, ?_⟩
      rintro _ _ u ⟨⟩ hu
      rw [← useCaseOffset_eq_some, hcase] at hu
      cases hu
    | some u =>
      have hu := useCaseOffset_eq_some.mp hcase
      have hadd : (u + x.nOffset).toNat = u.toNat + x.nOffset.toNat := by
        rw [UInt32.toNat_add, Nat.mod_eq_of_lt (hsum p f u hsel hu)]
      simp only [hadd]
      by_cases hlong : u.toNat + x.nOffset.toNat < 2 ^ 31
      · rw [if_pos hlong]
        exact Or.inr ⟨p, f, u, rfl, hu, rfl⟩
      · rw [if_neg hlong]
        refine Or.inl ⟨rfl, ?_⟩
        rintro _ _ u' ⟨⟩ hu'
        rw [← useCaseOffset_eq_some, hcase, Option.some.injEq] at hu'
        rw [← hu']
        exact Nat.le_of_not_lt hlong

theorem useCase_unique {u' : UInt32} (h : UseCase bytes nUseCaseId u)
    (h' : UseCase bytes nUseCaseId u') : u = u' := by
  rw [← useCaseOffset_eq_some] at h h'
  exact Option.some.inj (h.symm.trans h')

theorem saved_right (hroot : root.Proper) (hsum : ∀ p f u,
      selected root x.dccFileDesc path = some (p, f) → UseCase f.bytes x.nUseCaseId u →
        u.toNat + x.nOffset.toNat < 2 ^ 32) : Right root path x (saved root path x) := by
  have hnoWrap : ∀ p f u, selected root x.dccFileDesc path = some (p, f) →
      UseCase f.bytes x.nUseCaseId u →
      (u + x.nOffset).toNat = u.toNat + x.nOffset.toNat := by
    intro p f u hsel hu
    rw [UInt32.toNat_add, Nat.mod_eq_of_lt (hsum p f u hsel hu)]
  rcases saved_cases hsum with ⟨hsame, hlong⟩ | ⟨p, f, u, hsel, hu, hafter⟩
  · refine ⟨Or.inl fun q => by rw [hsame], ?_, hnoWrap⟩
    intro p f u hsel hu hlt
    exact absurd hlt (Nat.not_lt_of_le (hlong p f u hsel hu))
  · have hold := fileAt_of_selected hroot hsel
    have hover := fwrite_overwritten f.bytes (u.toNat + x.nOffset.toNat) x.pData
    rw [hafter]
    refine ⟨Or.inr ⟨p, f, u, _, chosen_of_selected hsel, hu, hold,
      fileAt_write_self hold, hover, fun q hq => fileAt_write_of_ne hq⟩, ?_,
      hnoWrap⟩
    intro p' f' u' hsel' hu' _
    rw [hsel, Option.some.injEq, Prod.mk.injEq] at hsel'
    obtain ⟨rfl, rfl⟩ := hsel'
    obtain rfl := useCase_unique hu hu'
    exact ⟨_, fileAt_write_self hold, hover⟩

/-- The update is the one of the right bytes of the right file if and only if the offset of the use
case and the offset in it have a sum of 32 bits. -/
theorem save_iff (fs : FileSystem) (path : List Char) (x : DccData pDataOffset)
    (hlen : path.length + 1 < pathSize)
    (hfits : ∀ t, opendir fs.root (path ++ ['/']) = some t → Fits (path.length + 1) t) :
    (∃ n, ∀ fuel, n ≤ fuel → ∃ after,
      saveDccFileDataSave fs.root (path ++ ['/']) x fuel = some after ∧
        Right fs.root (path ++ ['/']) x after) ↔
    ∀ p f u, selected fs.root x.dccFileDesc (path ++ ['/']) = some (p, f) →
      UseCase f.bytes x.nUseCaseId u → u.toNat + x.nOffset.toNat < 2 ^ 32 := by
  constructor
  · rintro ⟨n, hrun⟩ p f u hsel hu
    obtain ⟨after, -, hright⟩ := hrun n (Nat.le_refl n)
    rw [← hright.noWrap p f u hsel hu]
    exact (u + x.nOffset).toNat_lt
  · intro hsum
    have hright := saved_right fs.proper hsum
    cases hopen : opendir fs.root (path ++ ['/']) with
    | none =>
      refine ⟨0, fun fuel _ => ⟨_, save_eq fs.proper hlen hfits ?_, hright⟩⟩
      rw [hopen]
      rintro t ⟨⟩
    | some t =>
      refine ⟨t.size + 1, fun fuel hfuel => ⟨_, save_eq fs.proper hlen hfits ?_, hright⟩⟩
      rw [hopen]
      rintro t ⟨⟩
      exact hfuel

end Results

/-! ## A file with one use case -/

/-- The words of the camera, the table at byte 80, and a byte of data. -/
def oneUseCase (offset : UInt32) : List UInt8 :=
  [1, 2, 3].flatMap wordBytes ++ replicate 68 0 ++ [1, 5, offset, 0].flatMap wordBytes ++ [9]

def oneFile (offset : UInt32) : FileSystem where
  root := .dir ['d'] true (.file ['f'] ⟨true, true, oneUseCase offset⟩ .nil) .nil
  proper := ⟨by decide, by simp [FileTree.entries],
    ⟨by decide, by simp [FileTree.entries], trivial⟩, trivial⟩

def oneByte (nOffset : UInt32) : DccData 32 where
  nSize := 33
  dccFileDesc := ![1, 2, 3]
  nUseCaseId := 5
  nOffset := nOffset
  pData := [7]
  captured := by decide

theorem oneFile_fits (offset : UInt32) (t : FileTree)
    (h : opendir (oneFile offset).root ['/', 'd', '/'] = some t) : Fits 3 t := by
  cases (Eq.trans (by rfl) h)
  exact ⟨fun _ => by decide, trivial⟩

theorem save_first_byte : ∃ n, ∀ fuel, n ≤ fuel → ∃ after,
    saveDccFileDataSave (oneFile 96).root ['/', 'd', '/'] (oneByte 0) fuel = some after ∧
      Right (oneFile 96).root ['/', 'd', '/'] (oneByte 0) after := by
  refine (save_iff (oneFile 96) ['/', 'd'] (oneByte 0) (by decide) (oneFile_fits 96)).mpr ?_
  intro p f u _ _
  have hu := u.toNat_lt
  exact hu

/-- An offset of 2^32 - 1 and one of 1 in the use case lead to the first byte of the file. -/
theorem save_wraps : ¬ ∃ n, ∀ fuel, n ≤ fuel → ∃ after,
    saveDccFileDataSave (oneFile 0xFFFFFFFF).root ['/', 'd', '/'] (oneByte 1) fuel = some after ∧
      Right (oneFile 0xFFFFFFFF).root ['/', 'd', '/'] (oneByte 1) after := by
  rintro ⟨n, hrun⟩
  obtain ⟨after, -, hright⟩ := hrun n (Nat.le_refl n)
  have hcase : useCaseOffset (oneUseCase 0xFFFFFFFF) 5 = some 0xFFFFFFFF := by rfl
  exact absurd (hright.noWrap [['d'], ['f']] ⟨true, true, oneUseCase 0xFFFFFFFF⟩ 0xFFFFFFFF
    (by rfl) (useCaseOffset_eq_some.mp hcase)) (by decide)

end Omap4Hal.Camera.DccUpdate

import Omap4Hal.Elfload.Endian
import Omap4Hal.Lib.BreadthFirst

/- The lookup of a global symbol (`symtab.c`). A module that may see its direct dependencies only
   has them searched in their order. For any other the modules should be searched breadth first,
   from the application on.

   `breadth_first_lookup` looks for the module of a handle with `mod_node++`, where the nodes are
   those of a linked list: it finds the first module in the list and reads foreign memory if it is
   another one. The dependencies are always those of the first module, and a module is searched
   again whenever its handle is in the queue. So it is right only if the search is over with the
   first module (`searched_iff`). -/
namespace Omap4Hal.Elfload.Lookup

open Lib

/-! ## The modules -/

structure Sym where
  stName : String
  stInfo : BitVec 8
  stShndx : Half
  stValue : Word
  deriving DecidableEq, Repr

structure LoadedModule where
  fileHandle : Word
  directDependentOnly : Bool
  dependencies : List Word
  gsymtab : List Sym
  deriving DecidableEq, Repr

def shnUndef : Half := 0#16

def stbLocal : BitVec 8 := 0#8

/-- ELF32_ST_BIND -/
def stBind (stInfo : BitVec 8) : BitVec 8 := stInfo >>> 4

/-- How a lookup ends: with a value and TRUE, with FALSE, or with a read through a pointer that is
none. -/
inductive Outcome where
  | found (symValue : Word)
  | notFound
  | wild
  deriving DecidableEq, Repr

/-- `DLSYM_lookup_symtab` -/
def lookupSymtab (symName : String) (symtab : List Sym) (requireLocalBinding : Bool) :
    Option Word :=
  (symtab.find? fun s =>
    s.stShndx ≠ shnUndef ∧
      ((requireLocalBinding = true ∧ stBind s.stInfo = stbLocal) ∨
        (¬ requireLocalBinding = true ∧ stBind s.stInfo ≠ stbLocal)) ∧
      symName = s.stName).map Sym.stValue

def lookupGlobalSymtab (symName : String) (symtab : List Sym) : Option Word :=
  lookupSymtab symName symtab false

/-- `breadth_first_lookup`, for a number of rounds of its loop. `modules` is the list of the loaded
modules, `none` a lookup that goes on. -/
def breadthFirstLookup (modules : List LoadedModule) (symName : String) :
    Nat → List Word → Option Outcome
  | 0, _ => none
  | _ + 1, [] => some .notFound
  | n + 1, handle :: fileHandleQueue =>
    match modules with
    | [] => some .wild
    | modNode :: _ =>
      let dependencies := modNode.dependencies
      -- the node after it in memory is not the next one of the list
      if modNode.fileHandle ≠ handle then some .wild
      else
        match lookupGlobalSymtab symName modNode.gsymtab with
        | some v => some (.found v)
        | none => breadthFirstLookup modules symName n (fileHandleQueue ++ dependencies)

/-- The loop of `DLSYM_global_lookup` over the dependencies. -/
def directLookup (modules : List LoadedModule) (symName : String) : List Word → Outcome
  | [] => .notFound
  | childHandle :: rest =>
    match modules.find? fun m => m.fileHandle = childHandle with
    | none => .wild
    | some node =>
      match lookupGlobalSymtab symName node.gsymtab with
      | some v => .found v
      | none => directLookup modules symName rest

/-- `DLSYM_global_lookup` -/
def globalLookup (modules : List LoadedModule) (applicationHandle : Word) (symName : String)
    (loadedModule : LoadedModule) (n : Nat) : Option Outcome :=
  if loadedModule.directDependentOnly then
    some (directLookup modules symName loadedModule.dependencies)
  else breadthFirstLookup modules symName n [applicationHandle]

/-! ## What a lookup should find -/

/-- The symbol is a definition of the name that other modules see. -/
def Sym.defines (s : Sym) (symName : String) : Prop :=
  s.stName = symName ∧ s.stShndx ≠ shnUndef ∧ stBind s.stInfo ≠ stbLocal

instance (s : Sym) (symName : String) : Decidable (s.defines symName) :=
  inferInstanceAs (Decidable (_ ∧ _))

/-- The value that the module gives to the name. -/
def LoadedModule.definition (m : LoadedModule) (symName : String) : Option Word :=
  (m.gsymtab.find? fun s => s.defines symName).map Sym.stValue

/-- Every handle is that of one module. -/
structure Loaded (modules : List LoadedModule) : Prop where
  handles : (modules.map LoadedModule.fileHandle).Nodup
  dependencies : ∀ m ∈ modules, ∀ h ∈ m.dependencies, h ∈ modules.map LoadedModule.fileHandle

section Order
variable (modules : List LoadedModule)

def moduleOf (handle : Word) : Option LoadedModule :=
  modules.find? fun m => m.fileHandle = handle

/-- The dependencies of the module with the handle. -/
def dependenciesOf (handle : Word) : List Word :=
  ((moduleOf modules handle).map LoadedModule.dependencies).getD []

def searchOrder (applicationHandle : Word) : List Word :=
  bfsOrder (dependenciesOf modules) (modules.map LoadedModule.fileHandle) applicationHandle

/-- The definition in the first module that has one. -/
def firstDefinition (symName : String) (handles : List Word) : Option Word :=
  handles.findSome? fun h => (moduleOf modules h).bind fun m => m.definition symName

/-- The search from the application ends, and with what is to be found. -/
def Searched (symName : String) (applicationHandle : Word) : Prop :=
  ∃ n o, breadthFirstLookup modules symName n [applicationHandle] = some o ∧
    (∀ v, o = .found v ↔
      firstDefinition modules symName (searchOrder modules applicationHandle) = some v) ∧
    (o = .notFound ↔
      ∀ m ∈ modules, Reaches (dependenciesOf modules) applicationHandle m.fileHandle →
        m.definition symName = none)

end Order

/-! ## The symbol table -/

theorem lookupGlobalSymtab_eq (symName : String) (m : LoadedModule) :
    lookupGlobalSymtab symName m.gsymtab = m.definition symName := by
  have htest : ∀ s : Sym, (s.stShndx ≠ shnUndef ∧
      ((false = true ∧ stBind s.stInfo = stbLocal) ∨
        (¬ false = true ∧ stBind s.stInfo ≠ stbLocal)) ∧ symName = s.stName) ↔
      s.defines symName := by
    intro s
    rw [Sym.defines]
    constructor
    · rintro ⟨hdefined, hbind, hname⟩
      exact ⟨hname.symm, hdefined, (hbind.resolve_left fun h => Bool.false_ne_true h.1).2⟩
    · rintro ⟨hname, hdefined, hbind⟩
      exact ⟨hdefined, .inr ⟨Bool.false_ne_true, hbind⟩, hname.symm⟩
  simp only [lookupGlobalSymtab, lookupSymtab, LoadedModule.definition, htest]

section Loaded
variable {modules : List LoadedModule} (hloaded : Loaded modules)
include hloaded

theorem moduleOf_eq {m : LoadedModule} (hm : m ∈ modules) :
    moduleOf modules m.fileHandle = some m := by
  cases hfind : moduleOf modules m.fileHandle with
  | none =>
    have hno := List.find?_eq_none.mp hfind m hm
    simp at hno
  | some m' =>
    have hsame : m'.fileHandle = m.fileHandle := by
      simpa using List.find?_some hfind
    have hm' := List.mem_of_find?_eq_some hfind
    rw [List.inj_on_of_nodup_map hloaded.handles hm' hm hsame]

theorem dependenciesOf_eq {m : LoadedModule} (hm : m ∈ modules) :
    dependenciesOf modules m.fileHandle = m.dependencies := by
  rw [dependenciesOf, moduleOf_eq hloaded hm]
  rfl

theorem dependenciesOf_closed : ∀ h ∈ modules.map LoadedModule.fileHandle,
    ∀ d ∈ dependenciesOf modules h, d ∈ modules.map LoadedModule.fileHandle := by
  intro h hh d hd
  obtain ⟨m, hm, rfl⟩ := List.mem_map.mp hh
  rw [dependenciesOf_eq hloaded hm] at hd
  exact hloaded.dependencies m hm d hd

theorem firstDefinition_none_iff {app : Word} (happ : app ∈ modules.map LoadedModule.fileHandle)
    {symName : String} : firstDefinition modules symName (searchOrder modules app) = none ↔
      ∀ m ∈ modules, Reaches (dependenciesOf modules) app m.fileHandle →
        m.definition symName = none := by
  have hmem : ∀ h, h ∈ searchOrder modules app ↔ Reaches (dependenciesOf modules) app h :=
    fun h => mem_bfsOrder_iff (dependenciesOf_closed hloaded) happ
  rw [firstDefinition, List.findSome?_eq_none_iff]
  constructor
  · intro hnone m hm hreach
    have hdef := hnone m.fileHandle ((hmem _).mpr hreach)
    rwa [moduleOf_eq hloaded hm] at hdef
  · intro hnone h hh
    cases hfind : moduleOf modules h with
    | none => rfl
    | some m =>
      have hm := List.mem_of_find?_eq_some hfind
      have hhandle : m.fileHandle = h := by simpa using List.find?_some hfind
      apply hnone m hm
      rw [hhandle]
      exact (hmem h).mp hh

theorem directLookup_eq (symName : String) {handles : List Word}
    (hhandles : ∀ h ∈ handles, h ∈ modules.map LoadedModule.fileHandle) :
    directLookup modules symName handles =
      match firstDefinition modules symName handles with
      | some v => .found v
      | none => .notFound := by
  induction handles with
  | nil => rfl
  | cons h handles ih =>
    obtain ⟨hh, hrest⟩ := List.forall_mem_cons.mp hhandles
    obtain ⟨m, hm, rfl⟩ := List.mem_map.mp hh
    have hmodule := moduleOf_eq hloaded hm
    have hnode : modules.find? (fun node => node.fileHandle = m.fileHandle) = some m := hmodule
    rw [directLookup, hnode, firstDefinition, List.findSome?_cons, hmodule, Option.bind_some]
    simp only [lookupGlobalSymtab_eq]
    cases hdef : m.definition symName with
    | some v => rfl
    | none => exact ih hrest

/-- A module that sees its direct dependencies only finds the definition in the first of them that
has one. -/
theorem globalLookup_direct {m : LoadedModule} (hm : m ∈ modules)
    (hdirect : m.directDependentOnly = true) (app : Word) (symName : String) (n : Nat) :
    globalLookup modules app symName m n =
      some (match firstDefinition modules symName m.dependencies with
        | some v => .found v
        | none => .notFound) := by
  rw [globalLookup, if_pos hdirect, directLookup_eq hloaded symName (hloaded.dependencies m hm)]

end Loaded

/-! ## The search -/

section Front
variable {front : LoadedModule} {rest : List LoadedModule} {symName : String}

theorem lookup_round (n : Nat) (handle : Word) (queue : List Word) :
    breadthFirstLookup (front :: rest) symName (n + 1) (handle :: queue) =
      if front.fileHandle ≠ handle then some .wild
      else
        match front.definition symName with
        | some v => some (.found v)
        | none => breadthFirstLookup (front :: rest) symName n (queue ++ front.dependencies) := by
  rw [breadthFirstLookup, lookupGlobalSymtab_eq]

/-- If the first module has dependencies and not the name, no search that has begun comes to a
result. -/
theorem lookup_fails (rest : List LoadedModule) (hdef : front.definition symName = none)
    (hdeps : front.dependencies ≠ [])
    (n : Nat) {queue : List Word} (hqueue : queue ≠ []) :
    breadthFirstLookup (front :: rest) symName n queue = none ∨
      breadthFirstLookup (front :: rest) symName n queue = some .wild := by
  induction n generalizing queue with
  | zero => exact .inl rfl
  | succ n ih =>
    cases queue with
    | nil => exact absurd rfl hqueue
    | cons handle queue =>
      rw [lookup_round, hdef]
      split
      · exact .inr rfl
      · exact ih (List.append_ne_nil_of_right_ne_nil queue hdeps)

end Front

/-- The application is the module that was loaded first, and the search is over with it. -/
def FirstSuffices (modules : List LoadedModule) (symName : String) (app : Word) : Prop :=
  ∃ front, modules.head? = some front ∧ front.fileHandle = app ∧
    (front.definition symName ≠ none ∨ front.dependencies = [])

theorem searched_iff {modules : List LoadedModule} {symName : String} {app : Word}
    (hloaded : Loaded modules) (happ : app ∈ modules.map LoadedModule.fileHandle) :
    Searched modules symName app ↔ FirstSuffices modules symName app := by
  have hnone : firstDefinition modules symName (searchOrder modules app) = none ↔ _ :=
    firstDefinition_none_iff hloaded happ
  cases modules with
  | nil => exact absurd happ List.not_mem_nil
  | cons front rest =>
    constructor
    · rintro ⟨n, o, hrun, hfound, hnotFound⟩
      -- the outcome is one of the two
      have hwild : o ≠ .wild := by
        rintro rfl
        cases hfirst : firstDefinition (front :: rest) symName (searchOrder (front :: rest) app)
          with
        | none => cases hnotFound.mpr (hnone.mp hfirst)
        | some v => cases (hfound v).mpr hfirst
      cases n with
      | zero => cases hrun
      | succ n =>
        have happ' : front.fileHandle = app := by
          by_contra hne
          rw [lookup_round, if_pos hne] at hrun
          exact hwild (Option.some.inj hrun).symm
        refine ⟨front, rfl, happ', ?_⟩
        by_contra hnot
        rw [not_or, not_not] at hnot
        rcases lookup_fails rest hnot.1 hnot.2 (n + 1) (List.cons_ne_nil app []) with hmore | hmore
        · cases hmore.symm.trans hrun
        · exact hwild (Option.some.inj (hmore.symm.trans hrun)).symm
    · rintro ⟨m, hm, rfl, hsuffices⟩
      cases hm
      have hmodule := moduleOf_eq hloaded List.mem_cons_self
      obtain ⟨l, hl⟩ := bfsOrder_start (dependenciesOf (front :: rest))
        ((front :: rest).map LoadedModule.fileHandle) front.fileHandle
      cases hdef : front.definition symName with
      | some v =>
        have hfirst : firstDefinition (front :: rest) symName
            (searchOrder (front :: rest) front.fileHandle) = some v := by
          rw [searchOrder, hl, firstDefinition, List.findSome?_cons, hmodule, Option.bind_some,
            hdef]
        refine ⟨1, .found v, ?_, ?_, ?_⟩
        · rw [lookup_round, if_neg (not_not.mpr rfl), hdef]
        · intro w
          rw [hfirst, Outcome.found.injEq, Option.some.injEq]
        · rw [← hnone, hfirst]
          simp
      | none =>
        have hdeps := hsuffices.resolve_left (not_not.mpr hdef)
        have hall : ∀ m ∈ front :: rest,
            Reaches (dependenciesOf (front :: rest)) front.fileHandle m.fileHandle →
              m.definition symName = none := by
          intro m hm hreach
          have hsame : m.fileHandle = front.fileHandle := by
            rcases Relation.ReflTransGen.cases_head hreach with heq | ⟨h, hstep, -⟩
            · exact heq.symm
            · rw [dependenciesOf_eq hloaded List.mem_cons_self, hdeps] at hstep
              exact absurd hstep List.not_mem_nil
          rw [List.inj_on_of_nodup_map hloaded.handles hm List.mem_cons_self hsame]
          exact hdef
        refine ⟨2, .notFound, ?_, ?_, ?_⟩
        · rw [lookup_round, if_neg (not_not.mpr rfl), hdef, hdeps]
          rfl
        · intro w
          rw [hnone.mpr hall]
          simp
        · exact iff_of_true rfl hall

/-- An application with a library that defines the names given. -/
def withLibrary (names : List String) : List LoadedModule :=
  [{ fileHandle := 1#32, directDependentOnly := false, dependencies := [2#32],
     gsymtab := [{ stName := "main", stInfo := 0x12#8, stShndx := 1#16, stValue := 0x8000#32 }] },
   { fileHandle := 2#32, directDependentOnly := false, dependencies := [],
     gsymtab := names.map fun name =>
      { stName := name, stInfo := 0x12#8, stShndx := 1#16, stValue := 0x9000#32 } }]

theorem withLibrary_loaded (names : List String) : Loaded (withLibrary names) := by
  constructor
  · show [1#32, 2#32].Nodup
    decide
  · intro m hm h hh
    show h ∈ [1#32, 2#32]
    rcases List.mem_cons.mp hm with rfl | hm
    · rw [List.mem_singleton.mp hh]
      decide
    · rw [List.mem_singleton.mp hm] at hh
      cases hh

theorem searched_iff_main :
    1#32 ∈ (withLibrary ["puts"]).map LoadedModule.fileHandle ∧
      (Searched (withLibrary ["puts"]) "main" 1#32 ↔
        FirstSuffices (withLibrary ["puts"]) "main" 1#32) :=
  ⟨by decide, searched_iff (withLibrary_loaded _) (by decide)⟩

/-- A definition in the library of the application is not found. -/
theorem library_not_searched : ¬ ∀ modules symName app, Loaded modules →
    app ∈ modules.map LoadedModule.fileHandle → Searched modules symName app := by
  intro hall
  obtain ⟨n, o, hrun, hfound, -⟩ := hall (withLibrary ["puts"]) "puts" 1#32
    (withLibrary_loaded _) (by decide)
  have hfirst : firstDefinition (withLibrary ["puts"]) "puts"
      (searchOrder (withLibrary ["puts"]) 1#32) = some 0x9000#32 := by decide
  obtain rfl := (hfound _).mpr hfirst
  cases n with
  | zero => cases hrun
  | succ n =>
    rw [withLibrary, lookup_round, if_neg (by decide)] at hrun
    cases n with
    | zero => cases hrun
    | succ n => cases hrun

end Omap4Hal.Elfload.Lookup

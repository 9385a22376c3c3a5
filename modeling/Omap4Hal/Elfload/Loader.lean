import Mathlib.Algebra.Group.Nat.Defs
import Omap4Hal.Elfload.LoaderLists

/- Loading and unloading of modules by the ELF loader (`DLOAD_load` and `DLOAD_unload` of
   `dload.c`, with `DLIF_load_dependent` and `DLIF_unload_dependent` of `dlw_client.c`, which call
   them again).

   A module has a number, the count of modules before it. Its file handle is the number as a
   32-bit counter has it, and the number stands for the address of its `DLIMP_Loaded_Module` and of
   its `DLIMP_Dynamic_Module`: `loaded` and `dyn` are what host memory holds there. What is freed
   cannot be read. A function that reads it, or a null pointer, or that ends the process, has no
   result. -/
namespace Omap4Hal.Elfload.Dload

open Function (update)

/-! ## Files -/

/-- A `DT_NEEDED` entry. `space`: there is host memory for an entry in `dependencies`. -/
structure Needed where
  name : String
  space : Bool := true
  deriving DecidableEq, Repr

/-- What a load finds in a file, and what it is granted by the host and by the client. -/
structure Attempt where
  /-- Memory for the dynamic module. -/
  dynModule : Bool := true
  /-- There is a file, and `dload_headers` reads it. -/
  headers : Bool := true
  /-- There is a dynamic segment. -/
  relocatable : Bool := true
  /-- `process_eiosabi` and `dload_dynamic_information` succeed. -/
  information : Bool := true
  /-- The name of a file with a dynamic segment. -/
  soname : String := ""
  /-- Memory for the empty name of a file without one. -/
  emptyName : Bool := true
  /-- `is_valid_elf_object_file` -/
  valid : Bool := true
  /-- Memory for the loaded module and its name. -/
  loadedModule : Bool := true
  /-- Memory for the list of its dependencies. -/
  dependencies : Bool := true
  /-- Memory for its node in the queue. -/
  queueNode : Bool := true
  /-- `load_static_segment` -/
  staticSegment : Bool := true
  /-- `allocate_dynamic_segments_and_relocate_symbols` -/
  segments : Bool := true
  /-- Memory for the list of names. -/
  listSpace : Bool := true
  /-- Memory for its node on the stack. -/
  stackNode : Bool := true
  /-- `is_dsbt_module` -/
  dsbt : Bool := false
  /-- `DLIF_register_dsbt_index_request` -/
  registered : Bool := true
  needed : List Needed := []
  deriving DecidableEq, Repr

def Attempt.name (a : Attempt) : String := if a.relocatable then a.soname else ""

/-- What `fopen` of a name leads to, the first time a dependent is opened, the second and so on. -/
abbrev Disk := Nat → String → Option Attempt

/-! ## The loader -/

structure LoadedModule where
  name : String
  fileHandle : Nat
  useCount : Int
  dependencies : ArrayList
  deriving DecidableEq, Repr

/-- `LOADER_OBJECT`. The entries of `moduleDependencyList` point to the names of dynamic modules.
`done`: the modules whose load has returned a handle. -/
structure Loader where
  loaded : Nat → Option LoadedModule := fun _ => none
  dyn : Nat → Option String := fun _ => none
  fileHandle : Nat := 1
  loadedObjects : Queue := {}
  dependencyStack : Stack := {}
  moduleDependencyList : ArrayList := {}
  opened : Nat := 0
  done : List Nat := []

def dloadCreate (granted : Bool) : Loader := { moduleDependencyList := { held := granted } }

def Loader.setLoaded (s : Loader) (i : Nat) (m : LoadedModule) : Loader :=
  { s with loaded := update s.loaded i (some m) }

/-- `delete_DLIMP_Loaded_Module` -/
def Loader.deleteLoaded (s : Loader) (i : Nat) : Loader :=
  { s with loaded := update s.loaded i none }

/-- `delete_DLIMP_Dynamic_Module` after `detach_loaded_module` -/
def Loader.detach (s : Loader) (i : Nat) : Loader :=
  { s with dyn := update s.dyn i none }

/-- `initialize_loaded_module`, and the entry in the queue. -/
def Loader.register (s : Loader) (a : Attempt) : Loader :=
  { s with
    loaded := update s.loaded s.fileHandle
      (some ⟨a.name, s.fileHandle % 2 ^ 32, 1, { held := a.dependencies }⟩)
    dyn := update s.dyn s.fileHandle (some a.name)
    fileHandle := s.fileHandle + 1
    loadedObjects := s.loadedObjects.enqueue s.fileHandle a.queueNode }

/-- The module leaves the queue, and both objects are deleted. -/
def Loader.abandon (s : Loader) (i : Nat) : Loader :=
  ({ s with loadedObjects := s.loadedObjects.remove i }.detach i).deleteLoaded i

/-- A load that returns the module's handle. -/
def Loader.finish (s : Loader) (i : Nat) : Nat × Loader :=
  (i % 2 ^ 32, if i % 2 ^ 32 = 0 then s else { s with done := s.done ++ [i] })

/-! ## The checks before a module is registered -/

/-- The loop of `check_circular_dependency`: false if the name is among those in the list. -/
def namesDiffer (s : Loader) (name : String) : List Nat → Option Bool
  | [] => some true
  | i :: is =>
    match s.dyn i with
    | none => none
    | some other => if name = other then some false else namesDiffer s name is

def checkCircularDependency (s : Loader) (name : String) : Option Bool :=
  if s.moduleDependencyList.held = false ∧ s.moduleDependencyList.elems ≠ [] then none
  else namesDiffer s name s.moduleDependencyList.elems

/-- Whether the file comes to be registered. -/
def accepts (s : Loader) (a : Attempt) : Option Bool :=
  if (a.dynModule && a.headers) = false then some false
  else if a.relocatable = false then some (a.emptyName && a.valid)
  else if a.information = false then some false
  else
    match checkCircularDependency s a.soname with
    | none => none
    | some false => some false
    | some true => some a.valid

/-! ## Loading -/

/-- The queue's first module of a name. -/
def findNamed (s : Loader) (name : String) : List Nat → Option (Option Nat)
  | [] => some none
  | i :: is =>
    match s.loaded i with
    | none => none
    | some m => if m.name = name then some (some i) else findNamed s name is

/-- A handle is appended to the module's dependencies. -/
def Loader.listDependency (s : Loader) (i handle : Nat) (granted : Bool) : Option Loader := do
  let m ← s.loaded i
  let dependencies ← m.dependencies.append handle granted
  some (s.setLoaded i { m with dependencies := dependencies })

section

variable (load : Loader → Attempt → Option (Nat × Loader)) (disk : Disk)

def dlifLoadDependent (s : Loader) (name : String) : Option (Nat × Loader) :=
  match disk s.opened name with
  | none => some (0, { s with opened := s.opened + 1 })
  | some a => load { s with opened := s.opened + 1 } a

/-- A dependent that is in the queue is counted once more, whether its load has ended or not;
others are loaded. -/
def dloadAndAllocateDependencies (i : Nat) : List Needed → Loader → Option (Bool × Loader)
  | [], s => some (true, s)
  | n :: rest, s => do
    match ← findNamed s n.name s.loadedObjects.items with
    | some j =>
      let m ← s.loaded j
      let s ← (s.setLoaded j { m with useCount := m.useCount + 1 }).listDependency i m.fileHandle
        n.space
      dloadAndAllocateDependencies i rest s
    | none =>
      let (handle, s) ← dlifLoadDependent load disk s n.name
      let s ← s.listDependency i handle n.space
      if handle = 0 then some (false, s) else dloadAndAllocateDependencies i rest s

end

/-- The loop that empties the stack: a module is relocated and its dynamic module deleted. -/
def relocateAll : Nat → Loader → Option Loader
  | 0, s => some s
  | n + 1, s => do
    let (i, stack) ← s.dependencyStack.pop
    let _ ← s.dyn i
    let _ ← s.loaded i
    relocateAll n ({ s with dependencyStack := stack }.detach i)

/-- Only the module at the bottom of the stack relocates. -/
def relocateDependencyGraphModules (s : Loader) (i : Nat) : Option (Nat × Loader) :=
  match s.dependencyStack.bottom with
  | some none => none
  | some (some b) =>
    if b ≠ i then some (s.finish i)
    else (relocateAll s.dependencyStack.size.toNat s).map fun s => s.finish i
  | none => (relocateAll s.dependencyStack.size.toNat s).map fun s => s.finish i

def dloadStaticExecutable (s : Loader) (i : Nat) (a : Attempt) : Nat × Loader :=
  if a.staticSegment then (s.detach i).finish i
  else (0, (s.detach i).deleteLoaded i)

/-- A load that fails after the module has been pushed: the stack is popped, the module leaves
the queue, and the name stays in the list. -/
def Loader.giveUp (s : Loader) (i : Nat) : Option (Nat × Loader) := do
  let (_, stack) ← s.dependencyStack.pop
  some (0, { s with dependencyStack := stack }.abandon i)

/-- The part of `DLOAD_load` after the segments have been allocated. -/
def dloadDependents (load : Loader → Attempt → Option (Nat × Loader)) (disk : Disk) (s : Loader)
    (i : Nat) (a : Attempt) : Option (Nat × Loader) := do
  let list ← s.moduleDependencyList.append i a.listSpace
  let s := { s with
    moduleDependencyList := list
    dependencyStack := s.dependencyStack.push i a.stackNode }
  if a.dsbt && !a.registered then s.giveUp i
  else
    let (loaded, s) ← dloadAndAllocateDependencies load disk i a.needed s
    if loaded then
      relocateDependencyGraphModules
        { s with moduleDependencyList := s.moduleDependencyList.dropLast } i
    else s.giveUp i

/-- `DLOAD_load`; the number bounds how deep loads are nested. -/
def dloadLoad (disk : Disk) : Nat → Loader → Attempt → Option (Nat × Loader)
  | 0, _, _ => none
  | k + 1, s, a =>
    match accepts s a with
    | none => none
    | some false => some (0, s)
    | some true =>
      if a.loadedModule = false then none
      else if a.relocatable = false then
        some (dloadStaticExecutable (s.register a) s.fileHandle a)
      else if a.segments = false then some (0, (s.register a).abandon s.fileHandle)
      else dloadDependents (dloadLoad disk k) disk (s.register a) s.fileHandle a

/-! ## Unloading -/

section

variable (unload : Loader → Nat → Option (Bool × Loader))

/-- The loop over the dependents of a module. -/
def unloadDependents : List Nat → Loader → Option Loader
  | [], s => some s
  | h :: rest, s => do
    let (_, s) ← unload s h
    unloadDependents rest s

def removeLoadedModule (s : Loader) (i : Nat) : Option Loader :=
  if i ∈ s.loadedObjects.items ∧ s.loaded i ≠ none then
    some ({ s with loadedObjects := s.loadedObjects.remove i }.deleteLoaded i)
  else none

/-- The loop over the queue. -/
def unloadFrom (handle : Nat) : List Nat → Loader → Option (Bool × Loader)
  | [], s => some (false, s)
  | i :: is, s => do
    let m ← s.loaded i
    if m.fileHandle = handle then
      let s := s.setLoaded i { m with useCount := m.useCount - 1 }
      if m.useCount - 1 = 0 then
        if m.dependencies.held = false ∧ m.dependencies.elems ≠ [] then none
        else
          let s ← unloadDependents unload m.dependencies.elems s
          let s ← removeLoadedModule s i
          some (true, s)
      else unloadFrom handle is s
    else unloadFrom handle is s

end

/-- `DLOAD_unload`. A call within another one has taken the count of a further module to zero, so
there are no more of them than modules. -/
def dloadUnload : Nat → Loader → Nat → Option (Bool × Loader)
  | 0, _, _ => none
  | k + 1, s, handle => unloadFrom (dloadUnload k) handle s.loadedObjects.items s

/-- A loader with its client. `holds`: the handles of the client's loads that it has not
unloaded. -/
structure Client where
  loader : Loader
  holds : List Nat := []

/-- `depth`: how deep the loads of dependents may be nested in that of the file. -/
inductive ClientCall where
  | load (a : Attempt) (disk : Disk) (depth : Nat)
  | unload (handle : Nat)

def clientStep (c : Client) : ClientCall → Option Client
  | .load a disk depth => (dloadLoad disk (depth + 1) c.loader a).map fun res =>
      ⟨res.2, if res.1 = 0 then c.holds else res.1 :: c.holds⟩
  | .unload handle =>
      (dloadUnload (c.loader.loadedObjects.items.length + 1) c.loader handle).map fun res =>
        ⟨res.2, c.holds.erase handle⟩

end Omap4Hal.Elfload.Dload

import Mathlib.Data.List.Basic

/- Directory trees. A tree is the contents of a directory, entry after entry. What is at a path is
   found by the names on it (`lookup`); a file that is written changes nothing at any other path
   (`fileAt_write_of_ne`). A path is a string of names between slashes (`components`). -/
namespace Omap4Hal.Lib

abbrev FileName := List Char

structure File where
  readable : Bool
  writable : Bool
  bytes : List UInt8

inductive FileTree where
  | nil
  | dir (name : FileName) (opens : Bool) (sub rest : FileTree)
  | file (name : FileName) (f : File) (rest : FileTree)

inductive Entry where
  | dir (opens : Bool) (contents : FileTree)
  | file (f : File)

/-- A name in a path. -/
def GoodName (name : FileName) : Prop := name ≠ [] ∧ '/' ∉ name

instance (name : FileName) : Decidable (GoodName name) := inferInstanceAs (Decidable (_ ∧ _))

/-- The names of a path. -/
def components (path : List Char) : List FileName := (path.splitOn '/').filter (· ≠ [])

namespace FileTree

def entries : FileTree → List (FileName × Entry)
  | nil => []
  | dir name opens sub rest => (name, .dir opens sub) :: rest.entries
  | file name f rest => (name, .file f) :: rest.entries

/-- No two entries of a directory have one name. -/
def Proper : FileTree → Prop
  | nil => True
  | dir name _ sub rest =>
    GoodName name ∧ (∀ e ∈ rest.entries, e.1 ≠ name) ∧ sub.Proper ∧ rest.Proper
  | file name _ rest => GoodName name ∧ (∀ e ∈ rest.entries, e.1 ≠ name) ∧ rest.Proper

def lookup : FileTree → List FileName → Option Entry
  | t, [] => some (.dir true t)
  | nil, _ :: _ => none
  | dir name opens sub rest, n :: ns =>
    if n = name then
      if ns = [] then some (.dir opens sub) else sub.lookup ns
    else rest.lookup (n :: ns)
  | file name f rest, n :: ns =>
    if n = name then
      if ns = [] then some (.file f) else none
    else rest.lookup (n :: ns)

def fileAt (t : FileTree) (p : List FileName) : Option (List UInt8) :=
  match t.lookup p with
  | some (.file f) => some f.bytes
  | _ => none

/-- The file at a path has other bytes. -/
def write : FileTree → List FileName → List UInt8 → FileTree
  | t, [], _ => t
  | nil, _ :: _, _ => nil
  | dir name opens sub rest, n :: ns, bytes =>
    if n = name then dir name opens (sub.write ns bytes) rest
    else dir name opens sub (rest.write (n :: ns) bytes)
  | file name f rest, n :: ns, bytes =>
    if n = name then
      if ns = [] then file name { f with bytes := bytes } rest else file name f rest
    else file name f (rest.write (n :: ns) bytes)

def size : FileTree → Nat
  | nil => 0
  | dir _ _ sub rest => sub.size + rest.size + 1
  | file _ _ rest => rest.size + 1

end FileTree

/-- A file system: its names are those that it can have. -/
structure FileSystem where
  root : FileTree
  proper : root.Proper

/-! ## Paths -/

theorem components_slash (p q : List Char) :
    components (p ++ '/' :: q) = components p ++ components q := by
  rw [components, List.splitOn_append_cons_self, List.filter_append, components, components]

theorem components_name {name : FileName} (h : GoodName name) : components name = [name] := by
  rw [components, List.splitOn_eq_singleton h.2]
  exact List.filter_cons_of_pos (by simpa using h.1)

theorem components_append_name {p : List Char} {name : FileName} (h : GoodName name) :
    components (p ++ ['/'] ++ name) = components (p ++ ['/']) ++ [name] := by
  rw [List.append_assoc, List.singleton_append, components_slash, components_slash,
    components_name h]
  simp [components]

theorem components_append_slash (p : List Char) : components (p ++ ['/']) = components p := by
  rw [components_slash]
  simp [components]

namespace FileTree

variable {t sub : FileTree} {p q : List FileName} {name : FileName} {e : Entry}

/-! ## Lookups -/

theorem lookup_nil (t : FileTree) : t.lookup [] = some (.dir true t) := by
  cases t <;> rfl

theorem lookup_append {opens : Bool} (h : t.lookup p = some (.dir opens sub)) :
    t.lookup (p ++ name :: q) = sub.lookup (name :: q) := by
  fun_induction lookup t p with
  | case1 t =>
    obtain ⟨-, rfl⟩ := Entry.dir.inj (Option.some.inj h)
    rfl
  | case2 => cases h
  | case3 name' opens' sub' rest =>
    obtain ⟨-, rfl⟩ := Entry.dir.inj (Option.some.inj h)
    rw [List.singleton_append, lookup, if_pos rfl, if_neg (List.cons_ne_nil _ _)]
  | case4 name' opens' sub' rest ns _ ih =>
    rw [List.cons_append, lookup, if_pos rfl, if_neg (by simp)]
    exact ih h
  | case5 name' opens' sub' rest n ns hn ih =>
    rw [List.cons_append, lookup, if_neg hn]
    exact ih h
  | case6 => cases h
  | case7 => cases h
  | case8 name' f rest n ns hn ih =>
    rw [List.cons_append, lookup, if_neg hn]
    exact ih h

theorem proper_of_lookup {opens : Bool} (ht : t.Proper) (h : t.lookup p = some (.dir opens sub)) :
    sub.Proper := by
  fun_induction lookup t p with
  | case1 t =>
    obtain ⟨-, rfl⟩ := Entry.dir.inj (Option.some.inj h)
    exact ht
  | case2 => cases h
  | case3 =>
    obtain ⟨-, rfl⟩ := Entry.dir.inj (Option.some.inj h)
    exact ht.2.2.1
  | case4 _ _ _ _ _ _ ih => exact ih ht.2.2.1 h
  | case5 _ _ _ _ _ _ _ ih => exact ih ht.2.2.2 h
  | case6 => cases h
  | case7 => cases h
  | case8 _ _ _ _ _ _ ih => exact ih ht.2.2 h

theorem lookup_entry (ht : t.Proper) (he : (name, e) ∈ t.entries) : t.lookup [name] = some e := by
  induction t with
  | nil => cases he
  | dir name' opens sub rest _ ihRest =>
    obtain ⟨-, hfresh, -, hrest⟩ := ht
    rw [lookup]
    rcases List.mem_cons.mp he with heq | hmem
    · cases heq
      rw [if_pos rfl, if_pos rfl]
    · rw [if_neg (hfresh _ hmem)]
      exact ihRest hrest hmem
  | file name' f rest ih =>
    obtain ⟨-, hfresh, hrest⟩ := ht
    rw [lookup]
    rcases List.mem_cons.mp he with heq | hmem
    · cases heq
      rw [if_pos rfl, if_pos rfl]
    · rw [if_neg (hfresh _ hmem)]
      exact ih hrest hmem

theorem goodName_of_mem (ht : t.Proper) (he : (name, e) ∈ t.entries) : GoodName name := by
  induction t with
  | nil => cases he
  | dir name' opens sub rest _ ihRest =>
    rcases List.mem_cons.mp he with heq | hmem
    · exact (Prod.mk.inj heq).1 ▸ ht.1
    · exact ihRest ht.2.2.2 hmem
  | file name' f rest ih =>
    rcases List.mem_cons.mp he with heq | hmem
    · exact (Prod.mk.inj heq).1 ▸ ht.1
    · exact ih ht.2.2 hmem

/-- Some entries of the directory at a path. -/
def Listed (t : FileTree) (p : List FileName) (s : FileTree) : Prop :=
  ∀ e ∈ s.entries, GoodName e.1 ∧ t.lookup (p ++ [e.1]) = some e.2

theorem listed_of_lookup {opens : Bool} (ht : t.Proper)
    (h : t.lookup p = some (.dir opens sub)) : Listed t p sub := fun _ he =>
  ⟨goodName_of_mem (proper_of_lookup ht h) he,
    (lookup_append h).trans (lookup_entry (proper_of_lookup ht h) he)⟩

/-! ## Files -/

variable {opens : Bool} {rest : FileTree} {n : FileName} {ns : List FileName} {f : File}

theorem fileAt_of_lookup (h : t.lookup p = some (.file f)) : t.fileAt p = some f.bytes := by
  rw [fileAt, h]

@[simp] theorem fileAt_root : t.fileAt [] = none := by
  rw [fileAt, lookup_nil]

@[simp] theorem fileAt_nil : nil.fileAt p = none := by
  cases p <;> rfl

@[simp] theorem fileAt_dir : (dir name opens sub rest).fileAt (n :: ns) =
    if n = name then sub.fileAt ns else rest.fileAt (n :: ns) := by
  rw [fileAt, lookup]
  by_cases hn : n = name
  · rw [if_pos hn, if_pos hn]
    cases ns with
    | nil => rw [if_pos rfl, fileAt_root]
    | cons => rw [if_neg (List.cons_ne_nil _ _), fileAt]
  · rw [if_neg hn, if_neg hn, fileAt]

@[simp] theorem fileAt_file : (file name f rest).fileAt (n :: ns) =
    if n = name then if ns = [] then some f.bytes else none else rest.fileAt (n :: ns) := by
  rw [fileAt, lookup]
  by_cases hn : n = name
  · rw [if_pos hn, if_pos hn]
    by_cases hns : ns = []
    · rw [if_pos hns, if_pos hns]
    · rw [if_neg hns, if_neg hns]
  · rw [if_neg hn, if_neg hn, fileAt]

theorem fileAt_write_self {old bytes : List UInt8} (h : t.fileAt p = some old) :
    (t.write p bytes).fileAt p = some bytes := by
  fun_induction write t p bytes with
  | case1 t => simp at h
  | case2 => simp at h
  | case3 name opens sub rest ns bytes ih =>
    rw [fileAt_dir, if_pos rfl] at h ⊢
    exact ih h
  | case4 name opens sub rest n ns bytes hn ih =>
    rw [fileAt_dir, if_neg hn] at h ⊢
    exact ih h
  | case5 name f rest => rw [fileAt_file, if_pos rfl, if_pos rfl]
  | case6 name f rest ns bytes hns =>
    rw [fileAt_file, if_pos rfl, if_neg hns] at h
    cases h
  | case7 name f rest n ns bytes hn ih =>
    rw [fileAt_file, if_neg hn] at h ⊢
    exact ih h

theorem fileAt_write_of_ne {bytes : List UInt8} (h : q ≠ p) :
    (t.write p bytes).fileAt q = t.fileAt q := by
  fun_induction write t p bytes generalizing q with
  | case1 t => rfl
  | case2 => rfl
  | case3 opens sub rest name ns bytes ih =>
    cases q with
    | nil => simp
    | cons m ms =>
      rw [fileAt_dir, fileAt_dir]
      by_cases hm : m = name
      · rw [if_pos hm, if_pos hm]
        exact ih fun heq => h (by rw [hm, heq])
      · rw [if_neg hm, if_neg hm]
  | case4 name opens sub rest n ns bytes hn ih =>
    cases q with
    | nil => simp
    | cons m ms => rw [fileAt_dir, fileAt_dir, ih h]
  | case5 f rest name bytes =>
    cases q with
    | nil => simp
    | cons m ms =>
      rw [fileAt_file, fileAt_file]
      by_cases hm : m = name
      · have hms : ms ≠ [] := fun heq => h (by rw [hm, heq])
        rw [if_pos hm, if_pos hm, if_neg hms, if_neg hms]
      · rw [if_neg hm, if_neg hm]
  | case6 => rfl
  | case7 name f rest n ns bytes hn ih =>
    cases q with
    | nil => simp
    | cons m ms => rw [fileAt_file, fileAt_file, ih h]

end FileTree

end Omap4Hal.Lib

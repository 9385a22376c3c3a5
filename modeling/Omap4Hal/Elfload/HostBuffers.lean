import Omap4Hal.Elfload.PlaceUse
import Omap4Hal.Lib.Environment

/- What the host's addresses do to a module. The code takes the place of a relocation from the
   same address that it writes to, which is the host's: the symbols are target addresses. The
   relocated module depends on where the buffers are as soon as one entry uses the place or leaves
   its buffer, and not before. -/
namespace Omap4Hal.Elfload.Relocate

open Lib

/-! ## One entry -/

/-- The entries that put the place into the field, which is in the host's order here. -/
def ArmType.usesPlace (t : ArmType) (field : Word) : Prop :=
  match t with
  | .branch t => t ≠ .plt32
  | .data t => Data.usesPlace t field
  | .group t => t ≠ .aluPcG1
  | .other => False

theorem relocDo_blind_iff (t : ArmType) (field addend symval : Word) :
    (∀ pc pc', relocDo t field addend symval pc = relocDo t field addend symval pc') ↔
      ¬ t.usesPlace field := by
  have hiff : ∀ P : Prop, ∀ f : Word → Word, (P → ∃ pc pc', f pc ≠ f pc') →
      (¬ P → ∀ pc pc', f pc = f pc') → ((∀ pc pc', f pc = f pc') ↔ ¬ P) := by
    intro P f hne heq
    refine ⟨?_, heq⟩
    intro hall hP
    obtain ⟨pc, pc', h⟩ := hne hP
    exact h (hall pc pc')
  cases t with
  | branch t =>
    apply hiff (t ≠ .plt32) _ (fun ht => exists_places_ne ht field addend symval)
    intro ht
    rw [not_not] at ht
    subst ht
    exact relocDo_plt32 field addend symval
  | data t =>
    exact hiff _ _ (fun ht => Data.exists_places_ne ht addend symval)
      (fun ht => Data.relocDo_congr ht addend symval)
  | group t =>
    apply hiff (t ≠ .aluPcG1) _ (fun ht => Group.exists_places_ne ht field addend symval)
    intro ht pc pc'
    rw [not_not] at ht
    subst ht
    rfl
  | other => exact ⟨fun _ h => h, fun _ _ _ => rfl⟩

/-- The field as `reloc_do` finds it. -/
def ordered (t : ArmType) (changeEndian : Bool) (field : Word) : Word :=
  if changeEndian then relChangeEndian t field else field

theorem ordered_injective (t : ArmType) (changeEndian : Bool) :
    Function.Injective (ordered t changeEndian) := by
  cases changeEndian
  · exact fun _ _ h => h
  · exact Function.LeftInverse.injective (relChangeEndian_relChangeEndian t)

def Job.usesPlace (j : Job) (field : Word) : Prop :=
  match j.reloc with
  | .arm t changeEndian _ _ => t.usesPlace (ordered t changeEndian field)
  | .c60 t _ _ _ _ _ => C60.usesPlace t = true

theorem Segment.exists_host (seg : Segment) (rOffset pc : Word) :
    ∃ host, seg.relocAddress host rOffset = pc :=
  ⟨pc - (rOffset - seg.inputVaddr), by rw [seg.relocAddress_eq, sub_add_cancel]⟩

theorem Job.relocated_blind_iff (j : Job) (field : Word) :
    (∀ host host', j.relocated host field = j.relocated host' field) ↔ ¬ j.usesPlace field := by
  cases hr : j.reloc with
  | arm t changeEndian addend symval =>
    have hiff := relocDo_blind_iff t (ordered t changeEndian field)
      (addend.getD (relUnpackAddend t (ordered t changeEndian field))) symval
    have hrel : ∀ host, j.relocated host field = ordered t changeEndian
        (relocDo t (ordered t changeEndian field)
          (addend.getD (relUnpackAddend t (ordered t changeEndian field))) symval
          (j.segment.relocAddress host j.rOffset)) := by
      intro host
      rw [relocated, hr]
      rfl
    rw [usesPlace, hr, ← hiff]
    constructor
    · intro h pc pc'
      obtain ⟨host, rfl⟩ := j.segment.exists_host j.rOffset pc
      obtain ⟨host', rfl⟩ := j.segment.exists_host j.rOffset pc'
      apply ordered_injective t changeEndian
      rw [← hrel, ← hrel]
      exact h host host'
    · intro h host host'
      rw [hrel, hrel, h]
  | c60 t addend symval wrongEndian tiStaticBase dsbtIndex =>
    have hrel : ∀ host, j.relocated host field = (C60.relocDo t field host addend symval
        (j.rOffset - j.segment.inputVaddr) wrongEndian tiStaticBase dsbtIndex).1 := by
      intro host
      rw [relocated, hr, j.segment.bufferAddress_eq]
    rw [usesPlace, hr]
    constructor
    · intro h ht
      obtain ⟨a, a', hne⟩ := C60.exists_places_ne ht field addend symval
        (j.rOffset - j.segment.inputVaddr) wrongEndian tiStaticBase dsbtIndex
      apply hne
      rw [← hrel, ← hrel]
      exact h a a'
    · intro ht host host'
      rw [hrel, hrel, C60.relocDo_fst, C60.relocDo_fst,
        C60.relocValue_congr t addend symval tiStaticBase dsbtIndex fun h => absurd h ht]

/-! ## All entries -/

/-- The field of the entry. -/
def Job.fieldIn (j : Job) (c : Contents) : Word :=
  readWord (c j.index) (j.rOffset - j.segment.inputVaddr)

theorem process_eq (hosts : Nat → Word) (c : Contents) (j : Job) : process hosts c j =
    Function.update c j.index (writeWord (c j.index) (j.rOffset - j.segment.inputVaddr)
      (j.relocated (hosts j.index) (j.fieldIn c))) := by
  rw [process, j.place_eq]
  rfl

theorem process_blind_iff (c : Contents) (j : Job) :
    Blind process c j ↔ ¬ j.usesPlace (j.fieldIn c) := by
  rw [← j.relocated_blind_iff]
  constructor
  · intro h host host'
    have hsame := h (fun _ => host) (fun _ => host')
    rw [process_eq, process_eq] at hsame
    exact writeWord_inj.mp (Function.update_injective c j.index hsame)
  · intro h hosts hosts'
    rw [process_eq, process_eq, h]

/-- The buffers lie at the addresses that the segments will have. -/
def DynamicModule.targets (m : DynamicModule) (s : Nat) : Word :=
  (m.segments[s]?).elim 0#32 Segment.vaddr

/-- The buffers when `n` entries have been processed. -/
def DynamicModule.after (m : DynamicModule) (hosts : Nat → Word) (n : Nat) (c : Contents) :
    Option Contents :=
  run (processIn hosts) c (m.jobs.take n)

/-- Both runs stay in their buffers, which hold the same in the end. -/
def Same (x y : Option Contents) : Prop := x.isSome ∧ x = y

theorem run_processIn (hosts : Nat → Word) (c : Contents) (js : List Job) :
    run (processIn hosts) c js =
      if ∀ j ∈ js, j.inside then some (js.foldl (process hosts) c) else none := by
  induction js generalizing c with
  | nil => simp
  | cons j js ih =>
    by_cases hj : j.inside
    · have hstep : processIn hosts c j = some (process hosts c j) := if_pos hj
      rw [run_cons hstep, ih]
      simp [hj]
    · simp [run, processIn, hj]

theorem same_run_iff {hosts hosts' : Nat → Word} {c : Contents} {js : List Job} :
    Same (run (processIn hosts) c js) (run (processIn hosts') c js) ↔
      (∀ j ∈ js, j.inside) ∧ js.foldl (process hosts) c = js.foldl (process hosts') c := by
  rw [run_processIn, run_processIn, Same]
  by_cases hinside : ∀ j ∈ js, j.inside
  · rw [if_pos hinside, if_pos hinside]
    simp only [Option.isSome_some, Option.some.injEq, true_and, and_iff_right hinside]
  · rw [if_neg hinside]
    simp only [Option.isSome_none, Bool.false_eq_true, false_and, hinside]

/-- What the buffers hold is the same wherever they are, after every entry and so at the end,
exactly if every entry that is processed is in its buffer and none uses the place. -/
theorem after_agree_iff (m : DynamicModule) (c : Contents) :
    (∀ hosts hosts' n, Same (m.after hosts n c) (m.after hosts' n c)) ↔
      Guarded (stepIn process m.targets)
        (fun c j => j.inside ∧ ¬ j.usesPlace (j.fieldIn c)) c m.jobs := by
  have hagree : (∀ hosts hosts' n, Same (m.after hosts n c) (m.after hosts' n c)) ↔
      (∀ j ∈ m.jobs, j.inside) ∧ Agree process c m.jobs := by
    constructor
    · intro h
      refine ⟨?_, fun hosts hosts' n => (same_run_iff.mp (h hosts hosts' n)).2⟩
      have hall := (same_run_iff.mp (h m.targets m.targets m.jobs.length)).1
      rwa [List.take_length] at hall
    · rintro ⟨hinside, hsame⟩ hosts hosts' n
      exact same_run_iff.mpr ⟨fun j hj => hinside j (List.mem_of_mem_take hj), hsame hosts hosts' n⟩
  have htotal : ∀ c j, ∃ c', stepIn process m.targets c j = some c' := fun c j => ⟨_, rfl⟩
  rw [hagree, guarded_and, agree_iff_guarded m.targets,
    guarded_iff_forall (D := Job.inside) htotal]
  apply and_congr_right
  intro _
  exact guarded_congr (J := fun _ => True) (fun c j _ => process_blind_iff c j)
    (fun _ _ _ _ _ _ => trivial) trivial

/-- The entries write different bytes. -/
def Job.apart (j k : Job) : Prop :=
  j.index = k.index → Apart (j.rOffset - j.segment.inputVaddr) (k.rOffset - k.segment.inputVaddr)

variable {j k : Job} {js : List Job} {m : DynamicModule} {be8 : Bool} {s : Segment × Nat}

theorem Job.apart_symm (h : j.apart k) : k.apart j := fun hindex => (h hindex.symm).symm

theorem fieldIn_process_self (hosts : Nat → Word) (c : Contents) (j : Job) :
    j.fieldIn (process hosts c j) = j.relocated (hosts j.index) (j.fieldIn c) := by
  rw [process_eq, Job.fieldIn, Function.update_self, readWord_writeWord]

theorem fieldIn_process_of_apart (hosts : Nat → Word) (c : Contents) (h : j.apart k) :
    k.fieldIn (process hosts c j) = k.fieldIn c := by
  have hread : ∀ d : Contents, k.fieldIn d =
      readWord (d k.index) (k.rOffset - k.segment.inputVaddr) := fun _ => rfl
  rw [hread, hread, process_eq]
  by_cases hindex : k.index = j.index
  · rw [hindex, Function.update_self, readWord_writeWord_of_apart _ (h hindex.symm)]
  · rw [Function.update_of_ne hindex]

theorem fieldIn_foldl_of_apart (hosts : Nat → Word) (h : ∀ j ∈ js, j.apart k) (c : Contents) :
    k.fieldIn (js.foldl (process hosts) c) = k.fieldIn c := by
  induction js generalizing c with
  | nil => rfl
  | cons j js ih =>
    obtain ⟨hj, hrest⟩ := List.forall_mem_cons.mp h
    rw [List.foldl_cons, ih hrest, fieldIn_process_of_apart hosts c hj]

/-- Where no entry writes what another one has written, each field is in the end what its entry
has made of the file's. -/
theorem fieldIn_relocated (hosts : Nat → Word) (hjs : js.Pairwise Job.apart) (c : Contents)
    (hj : j ∈ js) :
    j.fieldIn (js.foldl (process hosts) c) = j.relocated (hosts j.index) (j.fieldIn c) := by
  obtain ⟨before, after, rfl⟩ := List.append_of_mem hj
  rw [List.pairwise_append, List.pairwise_cons] at hjs
  obtain ⟨-, ⟨hafter, -⟩, hbefore⟩ := hjs
  have hkept : j.fieldIn (before.foldl (process hosts) c) = j.fieldIn c :=
    fieldIn_foldl_of_apart hosts (fun k hk => hbefore k hk j List.mem_cons_self) c
  rw [List.foldl_append, List.foldl_cons,
    fieldIn_foldl_of_apart hosts fun k hk => Job.apart_symm (hafter k hk), fieldIn_process_self,
    hkept]

theorem guarded_iff_of_apart (hosts : Nat → Word) (hjs : js.Pairwise Job.apart) (c : Contents) :
    Guarded (stepIn process hosts) (fun c j => ¬ j.usesPlace (j.fieldIn c)) c js ↔
      ∀ j ∈ js, ¬ j.usesPlace (j.fieldIn c) := by
  induction js generalizing c with
  | nil => exact ⟨fun _ _ h => absurd h List.not_mem_nil, fun _ => trivial⟩
  | cons j js ih =>
    obtain ⟨hj, hrest⟩ := List.pairwise_cons.mp hjs
    have hkept : ∀ k ∈ js, k.fieldIn (process hosts c j) = k.fieldIn c :=
      fun k hk => fieldIn_process_of_apart hosts c (hj k hk)
    have htail : Guarded (stepIn process hosts) (fun c j => ¬ j.usesPlace (j.fieldIn c))
        (process hosts c j) js ↔ ∀ k ∈ js, ¬ k.usesPlace (k.fieldIn c) := by
      rw [ih hrest]
      exact forall₂_congr fun k hk => by rw [hkept k hk]
    rw [List.forall_mem_cons, ← htail]
    apply and_congr_right
    intro _
    constructor
    · exact fun h => h _ rfl
    · intro h s' hs'
      exact Option.some.inj hs' ▸ h

theorem after_length (m : DynamicModule) (hosts : Nat → Word) (c : Contents) :
    m.after hosts m.jobs.length c = m.relocate hosts c := by
  rw [DynamicModule.after, List.take_length, DynamicModule.relocate]

theorem relocate_same_of_after {hosts hosts' : Nat → Word} {c : Contents}
    (h : ∀ n, Same (m.after hosts n c) (m.after hosts' n c)) :
    Same (m.relocate hosts c) (m.relocate hosts' c) := by
  rw [← after_length, ← after_length]
  exact h _

theorem relocate_agree_iff_of_apart (hapart : m.jobs.Pairwise Job.apart) (c : Contents) :
    (∀ hosts hosts', Same (m.relocate hosts c) (m.relocate hosts' c)) ↔
      ∀ j ∈ m.jobs, j.inside ∧ ¬ j.usesPlace (j.fieldIn c) := by
  constructor
  · intro h j hj
    refine ⟨(same_run_iff.mp (h m.targets m.targets)).1 j hj, ?_⟩
    rw [← j.relocated_blind_iff]
    intro host host'
    have hsame := congrArg j.fieldIn (same_run_iff.mp (h (fun _ => host) (fun _ => host'))).2
    rwa [fieldIn_relocated _ hapart c hj, fieldIn_relocated _ hapart c hj] at hsame
  · intro h hosts hosts'
    apply relocate_same_of_after
    refine (after_agree_iff m c).mpr (guarded_and.mpr ⟨?_, ?_⟩) hosts hosts'
    · exact guarded_of_forall c fun j hj => (h j hj).1
    · exact (guarded_iff_of_apart m.targets hapart c).mpr fun j hj => (h j hj).2

/-! ## The target's addresses -/

theorem armJob_segment {r : Rel} {addend : Option Word} (h : armJob m be8 s r addend = some j) :
    (j.segment, j.index) = s := by
  obtain ⟨symval, -, rfl⟩ := Option.map_eq_some_iff.mp h
  rfl

theorem mem_armRelJobs {table : List Rel} (hj : j ∈ armRelJobs m be8 s table) :
    (j.segment, j.index) = s := by
  obtain ⟨r, -, hr⟩ := List.mem_filterMap.mp hj
  exact armJob_segment hr

theorem mem_armRelaJobs {table : List Rela} (hj : j ∈ armRelaJobs m be8 s table) :
    (j.segment, j.index) = s := by
  obtain ⟨r, -, hr⟩ := List.mem_filterMap.mp hj
  exact armJob_segment hr

theorem mem_armGotJobs {rel : List Rel} {rela : List Rela} {segments : List (Segment × Nat)}
    {relRid relaRid : Nat} (hj : j ∈ armGotJobs m be8 rel rela relRid relaRid segments) :
    (j.segment, j.index) ∈ segments := by
  induction segments generalizing relRid relaRid with
  | nil => exact absurd hj (by simp [armGotJobs])
  | cons s rest ih =>
    rw [armGotJobs] at hj
    split_ifs at hj with hsize
    · exact List.mem_cons_of_mem s (ih hj)
    · rcases List.mem_append.mp hj with hhere | hlater
      · apply List.mem_cons.mpr
        left
        rcases List.mem_append.mp hhere with hrela | hrel
        · exact mem_armRelaJobs hrela
        · exact mem_armRelJobs hrel
      · exact List.mem_cons_of_mem s (ih hlater)

/-! ## Two runs -/

/-- The module that is written to the target is the same wherever the buffers are, and so is what
they hold after every entry, exactly if every entry that is processed is in its buffer and none
uses the place. Where the fields of the entries are apart, it is so of the module alone, and the
fields are those of the file. -/
theorem relocate_agree (m : DynamicModule) (c : Contents) :
    ((∀ hosts hosts' n, Same (m.relocate hosts c) (m.relocate hosts' c) ∧
        Same (m.after hosts n c) (m.after hosts' n c)) ↔
      Guarded (stepIn process m.targets)
        (fun c j => j.inside ∧ ¬ j.usesPlace (j.fieldIn c)) c m.jobs) ∧
    (m.jobs.Pairwise Job.apart →
      ((∀ hosts hosts', Same (m.relocate hosts c) (m.relocate hosts' c)) ↔
        ∀ j ∈ m.jobs, j.inside ∧ ¬ j.usesPlace (j.fieldIn c))) := by
  refine ⟨?_, fun hapart => relocate_agree_iff_of_apart hapart c⟩
  rw [← after_agree_iff]
  constructor
  · exact fun h hosts hosts' n => (h hosts hosts' n).2
  · exact fun h hosts hosts' n => ⟨relocate_same_of_after (h hosts hosts'), h hosts hosts' n⟩

/-- A segment of zeros that is linked for 0x1000 and loaded at 0x80000000, with an entry for the
word at its start. The symbol is at 0x80000040. -/
def oneEntry (tables : Tables) : DynamicModule :=
  { segments := [⟨0x1000#32, 0x80000000#32, 0x100#32, 0x100#32⟩]
    wrongEndian := false
    canonicalLookup := fun _ => some 0x80000040#32
    tables := tables }

def relEntry : DynamicModule :=
  oneEntry (.arm false (.inl []) [⟨0x1000#32, 0x103#32⟩] [])

def relaEntry : DynamicModule :=
  oneEntry (.arm false (.inl []) [] [⟨⟨0x1000#32, 0x103#32⟩, 0#32⟩])

def c60Entry : DynamicModule :=
  oneEntry (.c60 0#32 0#32 [] [⟨⟨0x1000#32, 0x119#32⟩, 0#32⟩])

/-- `R_ARM_REL32` and `R_C6000_PREL31`: the distance to the symbol is 0x40 only from the target's
address of the word. -/
theorem relocate_differs :
    relEntry.relocate (fun _ => 0x80000000#32) (fun _ _ => 0#8) ≠
        relEntry.relocate (fun _ => 0x40000000#32) (fun _ _ => 0#8) ∧
      relaEntry.relocate (fun _ => 0x80000000#32) (fun _ _ => 0#8) ≠
        relaEntry.relocate (fun _ => 0x40000000#32) (fun _ _ => 0#8) ∧
      c60Entry.relocate (fun _ => 0x80000000#32) (fun _ _ => 0#8) ≠
        c60Entry.relocate (fun _ => 0x40000000#32) (fun _ _ => 0#8) := by
  have hread : ∀ m ∈ [relEntry, relaEntry, c60Entry],
      (m.relocate (fun _ => 0x80000000#32) (fun _ _ => 0#8)).map (fun c => readWord (c 0) 0#32) ≠
        (m.relocate (fun _ => 0x40000000#32) (fun _ _ => 0#8)).map
          fun c => readWord (c 0) 0#32 := by
    decide
  have hdiffer : ∀ m ∈ [relEntry, relaEntry, c60Entry],
      m.relocate (fun _ => 0x80000000#32) (fun _ _ => 0#8) ≠
        m.relocate (fun _ => 0x40000000#32) (fun _ _ => 0#8) := by
    intro m hm h
    exact hread m hm (congrArg (Option.map fun c : Contents => readWord (c 0) 0#32) h)
  exact ⟨hdiffer _ (by simp), hdiffer _ (by simp), hdiffer _ (by simp)⟩

end Omap4Hal.Elfload.Relocate

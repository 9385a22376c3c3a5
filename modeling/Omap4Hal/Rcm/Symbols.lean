import Mathlib.Data.Nat.Bitwise
import Omap4Hal.Lib.Run
import Omap4Hal.Lib.SlotTable

/- The function tables of an RcmServer (rcm/RcmServer.c): `RcmServer_addSymbol`,
   `RcmServer_removeSymbol`, `_RcmServer_getFxnAddr`, `_RcmServer_getSymIdx` and
   `_RcmServer_getNextKey`.

   The static functions are in a table of their own, filled when the server is created.
   The others go to the tables 1 to 7, which are allocated one after the other as they
   fill up; table `i` has `1 << (i + 4)` slots. A function index has the key of the slot,
   the number of the table and the offset, and `_RcmServer_getFxnAddr` takes them apart.
   It does not compare the offset with the size of the table, so what stands in memory
   after a table is an input (`beyond`). Whether the heap has room is an input too.

   Addresses and indices are 32-bit words, NULL is 0. The number of static functions is an
   `Int` of the source and below 2 ^ 31. -/
namespace Omap4Hal.Rcm.Symbols

open Function (update)
open Lib

/-! ## The function index -/

def sSuccess : Int := 0
def eNoMemory : Int := -2
def eSymbolNotFound : Int := -3
def eSymbolStatic : Int := -4
def eSymbolTableFull : Int := -5
def eInvalidArg : Int := -9
def eInvalidState : Int := -10
def eInvalidFxnIdx : Int := -101

/-- `RCMSERVER_MAX_TABLES` -/
def maxTables : Nat := 8
def keyResetValue : UInt16 := 0x07FF

/-- The number of slots of a dynamic table. -/
def tabCount (i : Nat) : Nat := 1 <<< (i + 4)

/-- The index of a dynamic function. -/
def fxnIndex (key : UInt16) (i j : Nat) : UInt32 :=
  ((key.toUInt32 <<< 20) ||| (UInt32.ofNat i <<< 12)) ||| UInt32.ofNat j

def isStatic (fxnIdx : UInt32) : Bool := fxnIdx &&& 0x80000000 != 0
def staticOffset (fxnIdx : UInt32) : Nat := (fxnIdx &&& 0x0000FFFF).toNat
def keyField (fxnIdx : UInt32) : UInt16 := ((fxnIdx &&& 0x7FF00000) >>> 20).toUInt16
def tabIdx (fxnIdx : UInt32) : Nat := ((fxnIdx &&& 0xF000) >>> 12).toNat
def tabOff (fxnIdx : UInt32) : Nat := (fxnIdx &&& 0x0FFF).toNat

variable {i j : Nat} {o : Object} {e : FxnTabElem}

theorem tabCount_le (h : i < maxTables) : tabCount i ≤ 4096 := by
  have hi : i + 4 ≤ 11 := by unfold maxTables at h; omega
  have hpow := Nat.pow_le_pow_right (n := 2) (by decide) hi
  simp only [tabCount, Nat.one_shiftLeft]
  omega

section

variable {key : UInt16} {i j : Nat}

theorem fxnIndex_toNat (hk : key ≤ keyResetValue) (hi : i < 16) (hj : j < 4096) :
    (fxnIndex key i j).toNat = key.toNat * 2 ^ 20 + i * 2 ^ 12 + j := by
  have hk' : key.toNat ≤ 2047 := hk
  have h₁ : (key.toUInt32 <<< 20).toNat = key.toNat <<< 20 := by
    rw [UInt32.toNat_shiftLeft]
    simp only [Nat.shiftLeft_eq, UInt16.toNat_toUInt32]
    exact Nat.mod_eq_of_lt (by show key.toNat * 2 ^ 20 < 2 ^ 32; omega)
  have h₂ : (UInt32.ofNat i <<< 12).toNat = i <<< 12 := by
    rw [UInt32.toNat_shiftLeft, UInt32.toNat_ofNat_of_lt' (by show i < 2 ^ 32; omega)]
    simp only [Nat.shiftLeft_eq]
    exact Nat.mod_eq_of_lt (by show i * 2 ^ 12 < 2 ^ 32; omega)
  have h₃ : (UInt32.ofNat j).toNat = j :=
    UInt32.toNat_ofNat_of_lt' (by show j < 2 ^ 32; omega)
  -- the fields do not overlap, so that `|` is `+`, from the offset upwards
  have h₄ : key.toNat <<< 20 ||| i <<< 12 = key.toNat <<< 20 + i <<< 12 :=
    (Nat.shiftLeft_add_eq_or_of_lt (by rw [Nat.shiftLeft_eq]; omega) _).symm
  have h₅ : key.toNat <<< 20 + i <<< 12 = (key.toNat * 2 ^ 8 + i) <<< 12 := by
    simp only [Nat.shiftLeft_eq]
    omega
  unfold fxnIndex
  rw [UInt32.toNat_or, UInt32.toNat_or, h₁, h₂, h₃, h₄, h₅,
    ← Nat.shiftLeft_add_eq_or_of_lt (by omega), Nat.shiftLeft_eq]
  omega

theorem fields_toNat (fxnIdx : UInt32) :
    (keyField fxnIdx).toNat = fxnIdx.toNat / 2 ^ 20 % 2 ^ 11 ∧
    tabIdx fxnIdx = fxnIdx.toNat / 2 ^ 12 % 2 ^ 4 ∧
    tabOff fxnIdx = fxnIdx.toNat % 2 ^ 12 := by
  refine ⟨?_, ?_, ?_⟩
  · have h : ((fxnIdx &&& 0x7FF00000) >>> 20).toNat = fxnIdx.toNat / 2 ^ 20 % 2 ^ 11 := by
      rw [UInt32.toNat_shiftRight, UInt32.toNat_and]
      show (fxnIdx.toNat &&& 0x7FF00000) >>> 20 = _
      rw [Nat.shiftRight_and_distrib, Nat.shiftRight_eq_div_pow]
      exact Nat.and_two_pow_sub_one_eq_mod _ 11
    unfold keyField
    rw [UInt32.toNat_toUInt16, h]
    omega
  · unfold tabIdx
    rw [UInt32.toNat_shiftRight, UInt32.toNat_and]
    show (fxnIdx.toNat &&& 0xF000) >>> 12 = _
    rw [Nat.shiftRight_and_distrib, Nat.shiftRight_eq_div_pow]
    exact Nat.and_two_pow_sub_one_eq_mod _ 4
  · unfold tabOff
    rw [UInt32.toNat_and]
    exact Nat.and_two_pow_sub_one_eq_mod _ 12

theorem isStatic_eq_false {fxnIdx : UInt32} (h : fxnIdx.toNat < 2 ^ 31) :
    isStatic fxnIdx = false := by
  have hand : fxnIdx &&& 0x80000000 = 0 := by
    apply UInt32.toNat_inj.mp
    rw [UInt32.toNat_and]
    show fxnIdx.toNat &&& 2 ^ 31 = 0
    rw [Nat.and_two_pow, Nat.testBit_lt_two_pow h]
    rfl
  simp [isStatic, hand]

theorem isStatic_or (j : UInt32) : isStatic (0x80000000 ||| j) = true := by
  have hbit : (0x80000000 ||| j) &&& 0x80000000 ≠ 0 := by
    intro h
    have hnat := congrArg UInt32.toNat h
    rw [UInt32.toNat_and, UInt32.toNat_or] at hnat
    have hand : (2 ^ 31 ||| j.toNat) &&& 2 ^ 31 = 0 := hnat
    rw [Nat.and_two_pow, Nat.testBit_or, Nat.testBit_two_pow_self] at hand
    cases hand
  simpa [isStatic] using hbit

theorem fields_fxnIndex (hk : key ≤ keyResetValue) (hi : i < 16) (hj : j < 4096) :
    isStatic (fxnIndex key i j) = false ∧ keyField (fxnIndex key i j) = key ∧
    tabIdx (fxnIndex key i j) = i ∧ tabOff (fxnIndex key i j) = j := by
  have hk' : key.toNat ≤ 2047 := hk
  have hnat := fxnIndex_toNat hk hi hj
  obtain ⟨h₁, h₂, h₃⟩ := fields_toNat (fxnIndex key i j)
  rw [hnat] at h₁ h₂ h₃
  refine ⟨isStatic_eq_false (by omega), ?_, by omega, by omega⟩
  apply UInt16.toNat_inj.mp
  omega

end

/-! ## The tables -/

structure FxnTabElem where
  name : Option String
  addr : UInt32
  key : UInt16
  deriving DecidableEq, Repr

def FxnTabElem.empty : FxnTabElem := ⟨none, 0, 0⟩

/-- `RcmServer_Object`, the tables. The dynamic ones are known by their number. -/
structure Object where
  fxnTabStatic : List FxnTabElem
  fxnTab : Nat → Option (Nat → FxnTabElem)
  key : UInt16

/-- What `_RcmServer_Instance_init` leaves. -/
def Object.create (fxns : List (String × UInt32)) : Object where
  fxnTabStatic := fxns.map fun f => ⟨some f.1, f.2, 0⟩
  fxnTab := fun _ => none
  key := 0

/-- `_RcmServer_getNextKey` -/
def getNextKey (key : UInt16) : UInt16 := if key ≤ 1 then keyResetValue else key - 1

/-- What the search for an empty slot comes to. -/
inductive Room where
  | slot (i j : Nat)
  | newTable (i : Nat)
  deriving DecidableEq, Repr

/-- The tables are searched in their order; the first that is not there is to be allocated. -/
def findRoom (o : Object) : Option Room :=
  (List.range' 1 (maxTables - 1)).findSome? fun i =>
    match o.fxnTab i with
    | some tab => (findBelow (fun j => (tab j).addr == 0) (tabCount i)).map (.slot i)
    | none => some (.newTable i)

def Object.setTab (o : Object) (i : Nat) (tab : Nat → FxnTabElem) : Object :=
  { o with fxnTab := update o.fxnTab i (some tab) }

/-- Write to a slot of a table that is there. -/
def Object.setSlot (o : Object) (i j : Nat) (e : FxnTabElem → FxnTabElem) : Object :=
  match o.fxnTab i with
  | some tab => o.setTab i (update tab j (e (tab j)))
  | none => o

/-- The arguments of `RcmServer_addSymbol`, that the module is set up, and whether the heap has
room for a table and for the name. -/
structure AddArgs where
  isSetup : Bool := true
  funcName : Option String
  addr : UInt32
  hasIndex : Bool := true
  tabAlloc : Bool := true
  nameAlloc : Bool := true
  deriving DecidableEq, Repr

/-- The new symbol goes into the slot. The address is written first, the key last. -/
def insertSymbol (o : Object) (a : AddArgs) (funcName : String) (i j : Nat) :
    Except Int UInt32 × Object :=
  let o₁ := o.setSlot i j fun e => { e with addr := a.addr }
  if a.nameAlloc then
    let key := getNextKey o.key
    let o₂ := o₁.setSlot i j fun e => { e with name := some funcName, key := key }
    (.ok (fxnIndex key i j), { o₂ with key := key })
  else
    (.error eNoMemory, o₁.setSlot i j fun e => { e with name := none })

/-- `RcmServer_addSymbol` -/
def addSymbol (o : Object) (a : AddArgs) : Except Int UInt32 × Object :=
  if a.isSetup = false then (.error eInvalidState, o)
  else
    match a.funcName with
    | none => (.error eInvalidArg, o)
    | some funcName =>
      if a.addr = 0 then (.error eInvalidArg, o)
      else if a.hasIndex = false then (.error eInvalidArg, o)
      else
        match findRoom o with
        | some (.slot i j) => insertSymbol o a funcName i j
        | some (.newTable i) =>
          if a.tabAlloc then insertSymbol (o.setTab i fun _ => .empty) a funcName i 0
          else (.error eNoMemory, o)
        | none => (.error eSymbolTableFull, o)

/-- The slot of a dynamic table that has the name, with its table and offset. -/
def findName (o : Object) (name : String) : Option (Nat × Nat × FxnTabElem) :=
  (List.range' 1 (maxTables - 1)).findSome? fun i =>
    (o.fxnTab i).bind fun tab =>
      (findBelow (fun j => (tab j).name == some name) (tabCount i)).map fun j => (i, j, tab j)

/-- `_RcmServer_getSymIdx`. The static table comes first. -/
def getSymIdx (o : Object) (name : String) : Except Int UInt32 :=
  match o.fxnTabStatic.findIdx? (fun e => e.name == some name) with
  | some j => .ok (0x80000000 ||| UInt32.ofNat j)
  | none =>
    match findName o name with
    | some (i, j, slot) => .ok (fxnIndex slot.key i j)
    | none => .error eSymbolNotFound

/-- `RcmServer_removeSymbol` -/
def removeSymbol (o : Object) (isSetup : Bool) (name : Option String) : Int × Object :=
  if isSetup = false then (eInvalidState, o)
  else
    match name with
    | none => (eInvalidArg, o)
    | some name =>
      match getSymIdx o name with
      | .error status => (status, o)
      | .ok fxnIdx =>
        if isStatic fxnIdx then (eSymbolStatic, o)
        else (sSuccess, o.setSlot (tabIdx fxnIdx) (tabOff fxnIdx) fun _ => .empty)

/-- `_RcmServer_getFxnAddr`. The offset is used as it is: `beyond` is read behind a table. -/
def getFxnAddr (beyond : Nat → Nat → FxnTabElem) (o : Object) (fxnIdx : UInt32) :
    Except Int UInt32 :=
  if isStatic fxnIdx then
    match o.fxnTabStatic[staticOffset fxnIdx]? with
    | some slot => .ok slot.addr
    | none => .error eInvalidFxnIdx
  else
    let key := keyField fxnIdx
    let i := tabIdx fxnIdx
    if 0 < i ∧ i < maxTables then
      match o.fxnTab i with
      | some tab =>
        let j := tabOff fxnIdx
        let slot := if j < tabCount i then tab j else beyond i j
        if key ≠ slot.key then .error eInvalidFxnIdx else .ok slot.addr
      | none => .error eInvalidFxnIdx
    else .error eInvalidFxnIdx

/-! ## Slots -/

/-- The slot at an offset of a table, if the table is there. -/
def Object.slot (o : Object) (i j : Nat) : Option FxnTabElem := (o.fxnTab i).map fun tab => tab j

theorem slot_eq_some :
    o.slot i j = some e ↔ ∃ tab, o.fxnTab i = some tab ∧ tab j = e := by
  simp only [Object.slot, Option.map_eq_some_iff]

theorem slot_setTab (o : Object) (i : Nat) (tab : Nat → FxnTabElem) (i' j' : Nat) :
    (o.setTab i tab).slot i' j' = if i' = i then some (tab j') else o.slot i' j' := by
  unfold Object.slot Object.setTab
  by_cases h : i' = i
  · simp [h]
  · simp [h]

theorem slot_setSlot (o : Object) (i j : Nat) (f : FxnTabElem → FxnTabElem) (i' j' : Nat) :
    (o.setSlot i j f).slot i' j' =
      if i' = i ∧ j' = j then (o.slot i j).map f else o.slot i' j' := by
  unfold Object.setSlot
  cases htab : o.fxnTab i with
  | none =>
    simp only [Object.slot]
    by_cases h : i' = i ∧ j' = j
    · simp [h, htab]
    · rw [if_neg h]
  | some tab =>
    have hslot : ∀ j', o.slot i j' = some (tab j') := fun j' => slot_eq_some.mpr ⟨tab, htab, rfl⟩
    show (o.setTab i (update tab j (f (tab j)))).slot i' j' = _
    rw [slot_setTab]
    by_cases hi : i' = i
    · by_cases hj : j' = j
      · simp [hi, hj, hslot]
      · simp [hi, hj, hslot]
    · simp [hi]

@[simp] theorem setTab_fxnTabStatic (o : Object) (i : Nat) (tab : Nat → FxnTabElem) :
    (o.setTab i tab).fxnTabStatic = o.fxnTabStatic := rfl

@[simp] theorem setTab_key (o : Object) (i : Nat) (tab : Nat → FxnTabElem) :
    (o.setTab i tab).key = o.key := rfl

@[simp] theorem setSlot_fxnTabStatic (o : Object) (i j : Nat) (f : FxnTabElem → FxnTabElem) :
    (o.setSlot i j f).fxnTabStatic = o.fxnTabStatic := by
  unfold Object.setSlot
  split <;> rfl

@[simp] theorem setSlot_key (o : Object) (i j : Nat) (f : FxnTabElem → FxnTabElem) :
    (o.setSlot i j f).key = o.key := by
  unfold Object.setSlot
  split <;> rfl

/-! ## What the searches find -/

theorem findRoom_eq_some {r : Room} (h : findRoom o = some r) :
    (∃ i j e, r = .slot i j ∧ 0 < i ∧ i < maxTables ∧ j < tabCount i ∧
      o.slot i j = some e ∧ e.addr = 0) ∨
    (∃ i, r = .newTable i ∧ 0 < i ∧ i < maxTables ∧ o.fxnTab i = none) := by
  obtain ⟨i, hi, hr⟩ := List.exists_of_findSome?_eq_some h
  rw [List.mem_range'_1] at hi
  have hi' : 0 < i ∧ i < maxTables := by unfold maxTables at hi ⊢; omega
  split at hr
  next tab htab =>
    obtain ⟨j, hj, rfl⟩ := Option.map_eq_some_iff.mp hr
    obtain ⟨haddr, hlt, _⟩ := findBelow_eq_some.mp hj
    refine Or.inl ⟨i, j, tab j, rfl, hi'.1, hi'.2, hlt, slot_eq_some.mpr ⟨tab, htab, rfl⟩, ?_⟩
    simpa using haddr
  next htab =>
    exact Or.inr ⟨i, (Option.some.inj hr).symm, hi'.1, hi'.2, htab⟩

theorem findName_eq_some {name : String} (h : findName o name = some (i, j, e)) :
    0 < i ∧ i < maxTables ∧ j < tabCount i ∧ o.slot i j = some e ∧ e.name = some name := by
  obtain ⟨i', hi, hr⟩ := List.exists_of_findSome?_eq_some h
  rw [List.mem_range'_1] at hi
  obtain ⟨tab, htab, hr⟩ := Option.bind_eq_some_iff.mp hr
  obtain ⟨j', hj, heq⟩ := Option.map_eq_some_iff.mp hr
  obtain ⟨hname, hlt, _⟩ := findBelow_eq_some.mp hj
  cases heq
  refine ⟨by omega, by unfold maxTables at hi ⊢; omega, hlt, ?_, by simpa using hname⟩
  exact slot_eq_some.mpr ⟨tab, htab, rfl⟩

theorem findName_eq_none {name : String} (h : findName o name = none) (hi : 0 < i ∧ i < maxTables)
    (hj : j < tabCount i) (he : o.slot i j = some e) : e.name ≠ some name := by
  obtain ⟨tab, htab, rfl⟩ := slot_eq_some.mp he
  have hmem : i ∈ List.range' 1 (maxTables - 1) := by
    rw [List.mem_range'_1]
    omega
  have hnone := List.findSome?_eq_none_iff.mp h i hmem
  rw [htab, Option.bind_some, Option.map_eq_none_iff] at hnone
  have := findBelow_eq_none.mp hnone j hj
  simpa using this

/-! ## Registration -/

/-- A symbol that was added and not removed since: what `RcmServer_addSymbol` was given and
returned, and how many symbols had been added with it. -/
structure Symbol where
  name : String
  addr : UInt32
  index : UInt32
  serial : Nat
  deriving DecidableEq, Repr

/-- The tables together with what the callers know of them: the symbol registered in each slot,
the number of symbols added so far, and the symbols removed, each with that number then. -/
@[ext] structure World where
  obj : Object
  live : Nat → Nat → Option Symbol
  added : Nat
  removed : List (Symbol × Nat)

def World.create (fxns : List (String × UInt32)) : World where
  obj := .create fxns
  live := fun _ _ => none
  added := 0
  removed := []

inductive Call where
  | add (a : AddArgs)
  | remove (isSetup : Bool) (name : Option String)

/-- What is registered in the slot that an index names. -/
def setLive (live : Nat → Nat → Option Symbol) (fxnIdx : UInt32) (y : Option Symbol) :
    Nat → Nat → Option Symbol := fun i j =>
  if i = tabIdx fxnIdx ∧ j = tabOff fxnIdx then y else live i j

/-- A call, and what its result says about the symbols. -/
def World.call (w : World) : Call → World
  | .add a =>
    match addSymbol w.obj a with
    | (.ok fxnIdx, o) =>
      let y : Symbol := ⟨a.funcName.getD "", a.addr, fxnIdx, w.added + 1⟩
      { w with
        obj := o
        live := setLive w.live fxnIdx (some y)
        added := w.added + 1 }
    | (.error _, o) => { w with obj := o }
  | .remove isSetup name =>
    match removeSymbol w.obj isSetup name, getSymIdx w.obj (name.getD "") with
    | (status, o), .ok fxnIdx =>
      if status = sSuccess then
        let gone := (w.live (tabIdx fxnIdx) (tabOff fxnIdx)).toList
        { w with
          obj := o
          live := setLive w.live fxnIdx none
          removed := (gone.map fun y => (y, w.added)) ++ w.removed }
      else { w with obj := o }
    | (_, o), .error _ => { w with obj := o }

def step (w : World) (c : Call) : Option World := some (w.call c)

/-! ## Keys -/

/-- The key given to the `n`-th symbol that was added. -/
def keyAfter : Nat → UInt16
  | 0 => 0
  | n + 1 => getNextKey (keyAfter n)

theorem keyAfter_toNat (n : Nat) : (keyAfter (n + 1)).toNat = 2047 - n % 2047 := by
  induction n with
  | zero => rfl
  | succ n ih =>
    show (getNextKey (keyAfter (n + 1))).toNat = _
    unfold getNextKey
    by_cases h : keyAfter (n + 1) ≤ 1
    · have h' : (keyAfter (n + 1)).toNat ≤ 1 := h
      rw [if_pos h]
      show 2047 = _
      omega
    · have h' : ¬ (keyAfter (n + 1)).toNat ≤ 1 := h
      have hle : (1 : UInt16) ≤ keyAfter (n + 1) := by
        show 1 ≤ (keyAfter (n + 1)).toNat
        omega
      rw [if_neg h, UInt16.toNat_sub_of_le _ _ hle]
      show (keyAfter (n + 1)).toNat - 1 = _
      omega

theorem keyAfter_le (n : Nat) : keyAfter n ≤ keyResetValue := by
  cases n with
  | zero => decide
  | succ n =>
    show (keyAfter (n + 1)).toNat ≤ 2047
    rw [keyAfter_toNat]
    omega

theorem keyAfter_ne_zero {n : Nat} (h : 0 < n) : keyAfter n ≠ 0 := by
  obtain ⟨m, rfl⟩ := Nat.exists_eq_succ_of_ne_zero (Nat.ne_of_gt h)
  intro hzero
  have hnat := keyAfter_toNat m
  rw [hzero] at hnat
  have : (0 : UInt16).toNat = 0 := rfl
  omega

theorem keyAfter_inj {m n : Nat} (hm : 0 < m) (hlt : m < n) (hn : n < m + 2047) :
    keyAfter m ≠ keyAfter n := by
  intro heq
  obtain ⟨m, rfl⟩ := Nat.exists_eq_succ_of_ne_zero (Nat.ne_of_gt hm)
  obtain ⟨n, rfl⟩ := Nat.exists_eq_succ_of_ne_zero (show n ≠ 0 by omega)
  have h := congrArg UInt16.toNat heq
  rw [keyAfter_toNat, keyAfter_toNat] at h
  omega

/-! ## What holds of the tables -/

/-- What stands in a slot: the symbol registered there, or no name and no key. The address of a
slot without a symbol may be that of a symbol that could not be added. -/
def Holds : Option Symbol → FxnTabElem → Prop
  | some y, e => e.name = some y.name ∧ e.addr = y.addr ∧ y.addr ≠ 0 ∧ e.key = keyAfter y.serial
  | none, e => e.name = none ∧ e.key = 0

structure Inv (w : World) : Prop where
  slots : ∀ i j e, w.obj.slot i j = some e → j < tabCount i → Holds (w.live i j) e
  inside : ∀ i j y, w.live i j = some y →
    0 < i ∧ i < maxTables ∧ j < tabCount i ∧ ∃ e, w.obj.slot i j = some e
  index : ∀ i j y, w.live i j = some y → y.index = fxnIndex (keyAfter y.serial) i j
  serial : ∀ i j y, w.live i j = some y → 0 < y.serial ∧ y.serial ≤ w.added
  key : w.obj.key = keyAfter w.added

theorem inv_create (fxns : List (String × UInt32)) : Inv (World.create fxns) where
  slots := by
    intro i j e he
    cases he
  inside := by
    intro i j y hy
    cases hy
  index := by
    intro i j y hy
    cases hy
  serial := by
    intro i j y hy
    cases hy
  key := rfl

section

variable {w : World}

variable {i j : Nat}

theorem Inv.slot (h : Inv w) {y : Symbol} (hy : w.live i j = some y) :
    w.obj.slot i j = some ⟨some y.name, y.addr, keyAfter y.serial⟩ ∧ y.addr ≠ 0 := by
  obtain ⟨_, _, hj, e, he⟩ := h.inside i j y hy
  have hholds := h.slots i j e he hj
  rw [hy] at hholds
  obtain ⟨hname, haddr, hne, hkey⟩ := hholds
  refine ⟨?_, hne⟩
  rw [he, ← hname, ← haddr, ← hkey]

theorem Inv.live_eq_none (h : Inv w) {e : FxnTabElem} (he : w.obj.slot i j = some e)
    (haddr : e.addr = 0) : w.live i j = none := by
  cases hy : w.live i j with
  | none => rfl
  | some y =>
    obtain ⟨hslot, hne⟩ := h.slot hy
    rw [he] at hslot
    rw [Option.some.inj hslot] at haddr
    exact absurd haddr hne

theorem Inv.setTab (h : Inv w) (htab : w.obj.fxnTab i = none) :
    Inv { w with obj := w.obj.setTab i fun _ => .empty } where
  slots := by
    intro i' j' e he hj
    rw [slot_setTab] at he
    by_cases hi : i' = i
    · rw [if_pos hi] at he
      have hnone : w.live i' j' = none := by
        cases hy : w.live i' j' with
        | none => rfl
        | some y =>
          obtain ⟨_, _, _, e', he'⟩ := h.inside i' j' y hy
          rw [hi, Object.slot, htab] at he'
          cases he'
      show Holds (w.live i' j') e
      rw [hnone, ← Option.some.inj he]
      exact ⟨rfl, rfl⟩
    · rw [if_neg hi] at he
      exact h.slots i' j' e he hj
  inside := by
    intro i' j' y hy
    obtain ⟨hpos, hlt, hj, e, he⟩ := h.inside i' j' y hy
    refine ⟨hpos, hlt, hj, ?_⟩
    show ∃ e, (w.obj.setTab i fun _ => .empty).slot i' j' = some e
    rw [slot_setTab]
    by_cases hi : i' = i
    · exact ⟨_, if_pos hi⟩
    · exact ⟨e, by rw [if_neg hi, he]⟩
  index := h.index
  serial := h.serial
  key := h.key

theorem Inv.write (h : Inv w) {w' : World} {e : FxnTabElem} {z : Option Symbol}
    (hin : 0 < i ∧ i < maxTables ∧ j < tabCount i)
    (hslot : ∀ i' j', w'.obj.slot i' j' = if i' = i ∧ j' = j then some e else w.obj.slot i' j')
    (hlive : ∀ i' j', w'.live i' j' = if i' = i ∧ j' = j then z else w.live i' j')
    (hholds : Holds z e)
    (hnew : ∀ y, z = some y →
      y.index = fxnIndex (keyAfter y.serial) i j ∧ 0 < y.serial ∧ y.serial ≤ w'.added)
    (hadded : w.added ≤ w'.added) (hkey : w'.obj.key = keyAfter w'.added) : Inv w' where
  slots := by
    intro i' j' e' he hj
    rw [hslot] at he
    rw [hlive]
    by_cases hij : i' = i ∧ j' = j
    · rw [if_pos hij] at he ⊢
      exact Option.some.inj he ▸ hholds
    · rw [if_neg hij] at he ⊢
      exact h.slots i' j' e' he hj
  inside := by
    intro i' j' y hy
    rw [hlive] at hy
    rw [hslot]
    by_cases hij : i' = i ∧ j' = j
    · obtain ⟨rfl, rfl⟩ := hij
      exact ⟨hin.1, hin.2.1, hin.2.2, e, by simp⟩
    · rw [if_neg hij] at hy ⊢
      exact h.inside i' j' y hy
  index := by
    intro i' j' y hy
    rw [hlive] at hy
    by_cases hij : i' = i ∧ j' = j
    · rw [if_pos hij] at hy
      rw [hij.1, hij.2]
      exact (hnew y hy).1
    · rw [if_neg hij] at hy
      exact h.index i' j' y hy
  serial := by
    intro i' j' y hy
    rw [hlive] at hy
    by_cases hij : i' = i ∧ j' = j
    · rw [if_pos hij] at hy
      exact (hnew y hy).2
    · rw [if_neg hij] at hy
      obtain ⟨hpos, hle⟩ := h.serial i' j' y hy
      exact ⟨hpos, by omega⟩
  key := hkey

end

/-! ## What a call does -/

/-- The slot a symbol is added to, in the tables as they are then: an empty slot of a table that is
there, or the first one of a new table. -/
inductive Ready (o : Object) : Nat → Nat → Object → Prop where
  | slot {i j : Nat} {e : FxnTabElem} (he : o.slot i j = some e) (haddr : e.addr = 0) :
    Ready o i j o
  | newTable {i : Nat} (htab : o.fxnTab i = none) : Ready o i 0 (o.setTab i fun _ => .empty)

theorem Ready.slot_addr {o₁ : Object} (h : Ready o i j o₁) :
    ∃ e, o₁.slot i j = some e ∧ e.addr = 0 := by
  cases h with
  | slot he haddr => exact ⟨_, he, haddr⟩
  | newTable htab => exact ⟨.empty, by simp [slot_setTab], rfl⟩

/-- Either the tables stay as they are, or the symbol goes to a slot that is ready. -/
theorem addSymbol_cases (o : Object) (a : AddArgs) :
    (∃ status, addSymbol o a = (.error status, o)) ∨
    (∃ funcName i j o₁, a.funcName = some funcName ∧ a.addr ≠ 0 ∧
      (0 < i ∧ i < maxTables ∧ j < tabCount i) ∧ Ready o i j o₁ ∧
      addSymbol o a = insertSymbol o₁ a funcName i j) := by
  unfold addSymbol
  by_cases hsetup : a.isSetup = false
  · exact Or.inl ⟨_, if_pos hsetup⟩
  rw [if_neg hsetup]
  cases hname : a.funcName with
  | none => exact Or.inl ⟨_, rfl⟩
  | some funcName =>
    by_cases haddr : a.addr = 0
    · exact Or.inl ⟨eInvalidArg, by simp [haddr]⟩
    by_cases hindex : a.hasIndex = false
    · exact Or.inl ⟨eInvalidArg, by simp [hindex]⟩
    simp only [if_neg haddr, if_neg hindex]
    cases hroom : findRoom o with
    | none => exact Or.inl ⟨_, rfl⟩
    | some r =>
      rcases findRoom_eq_some hroom with ⟨i, j, e, rfl, hpos, hlt, hj, he, hzero⟩ |
        ⟨i, rfl, hpos, hlt, htab⟩
      · exact Or.inr ⟨funcName, i, j, o, rfl, haddr, ⟨hpos, hlt, hj⟩, .slot he hzero, rfl⟩
      · cases htabAlloc : a.tabAlloc with
        | false => exact Or.inl ⟨_, rfl⟩
        | true =>
          have hj : 0 < tabCount i := by
            rw [tabCount, Nat.one_shiftLeft]
            exact Nat.two_pow_pos _
          exact Or.inr ⟨funcName, i, 0, _, rfl, haddr, ⟨hpos, hlt, hj⟩, .newTable htab, rfl⟩

theorem insertSymbol_spec (o : Object) (a : AddArgs) (funcName : String) (he : o.slot i j = some e)
    :
    ∃ result o' e', insertSymbol o a funcName i j = (result, o') ∧
      (∀ i' j', o'.slot i' j' = if i' = i ∧ j' = j then some e' else o.slot i' j') ∧
      o'.fxnTabStatic = o.fxnTabStatic ∧
      ((result = .ok (fxnIndex (getNextKey o.key) i j) ∧ o'.key = getNextKey o.key ∧
          e' = ⟨some funcName, a.addr, getNextKey o.key⟩) ∨
        (result = .error eNoMemory ∧ o'.key = o.key ∧ e' = ⟨none, a.addr, e.key⟩)) := by
  unfold insertSymbol
  cases hname : a.nameAlloc with
  | true =>
    refine ⟨_, _, ⟨some funcName, a.addr, getNextKey o.key⟩, rfl, ?_, by simp,
      Or.inl ⟨rfl, rfl, rfl⟩⟩
    intro i' j'
    show ((o.setSlot i j _).setSlot i j _).slot i' j' = _
    simp only [slot_setSlot, and_self, if_true, he, Option.map_some]
    split
    · rfl
    · rfl
  | false =>
    refine ⟨_, _, ⟨none, a.addr, e.key⟩, rfl, ?_, by simp, Or.inr ⟨rfl, by simp, rfl⟩⟩
    intro i' j'
    simp only [slot_setSlot, and_self, if_true, he, Option.map_some]
    split
    · rfl
    · rfl

/-- What a call may do to the registered symbols: nothing, register one in a free slot, or take
one away that has the name it was given. -/
inductive Change (w w' : World) : Call → Prop where
  | same {c : Call} (hlive : w'.live = w.live) (hadded : w'.added = w.added)
      (hremoved : w'.removed = w.removed) : Change w w' c
  | register {a : AddArgs} {i j : Nat} {y : Symbol} (hname : a.funcName = some y.name)
      (haddr : y.addr = a.addr) (hserial : y.serial = w.added + 1)
      (hok : (addSymbol w.obj a).1 = .ok y.index) (hfree : w.live i j = none)
      (hlive : ∀ i' j', w'.live i' j' = if i' = i ∧ j' = j then some y else w.live i' j')
      (hadded : w'.added = w.added + 1) (hremoved : w'.removed = w.removed) : Change w w' (.add a)
  | unregister {i j : Nat} {y : Symbol} (hy : w.live i j = some y)
      (hlive : ∀ i' j', w'.live i' j' = if i' = i ∧ j' = j then none else w.live i' j')
      (hadded : w'.added = w.added) (hremoved : w'.removed = (y, w.added) :: w.removed) :
      Change w w' (.remove true (some y.name))

section

variable {w : World}

theorem call_add (h : Inv w) (a : AddArgs) :
    Inv (w.call (.add a)) ∧ (w.call (.add a)).obj.fxnTabStatic = w.obj.fxnTabStatic ∧
    Change w (w.call (.add a)) (.add a) := by
  rcases addSymbol_cases w.obj a with ⟨status, hadd⟩ |
    ⟨funcName, i, j, o₁, hname, hne, hin, hready, hadd⟩
  · have hcall : w.call (.add a) = w := by simp only [World.call, hadd]
    rw [hcall]
    exact ⟨h, rfl, .same rfl rfl rfl⟩
  obtain ⟨e, he, haddr⟩ := hready.slot_addr
  have h₁ : Inv { w with obj := o₁ } ∧ o₁.key = w.obj.key ∧
      o₁.fxnTabStatic = w.obj.fxnTabStatic := by
    cases hready with
    | slot he' haddr' => exact ⟨h, rfl, rfl⟩
    | newTable htab => exact ⟨h.setTab htab, rfl, rfl⟩
  obtain ⟨hinv, hkey₁, hstatic₁⟩ := h₁
  have hfree : w.live i j = none := hinv.live_eq_none he haddr
  have hkey : getNextKey o₁.key = keyAfter (w.added + 1) := by rw [hkey₁, h.key]; rfl
  obtain ⟨result, o', e', hins, hslot, hstatic, hres⟩ := insertSymbol_spec o₁ a funcName he
  rcases hres with ⟨rfl, hkey', rfl⟩ | ⟨rfl, hkey', rfl⟩
  · -- the symbol is registered under the next key
    have hfields := fields_fxnIndex (keyAfter_le (w.added + 1)) (show i < 16 by
      unfold maxTables at hin; omega) (Nat.lt_of_lt_of_le hin.2.2 (tabCount_le hin.2.1))
    rw [hkey] at hins hkey' hslot
    let y : Symbol := ⟨funcName, a.addr, fxnIndex (keyAfter (w.added + 1)) i j, w.added + 1⟩
    have hlive : ∀ i' j', (w.call (.add a)).live i' j' =
        if i' = i ∧ j' = j then some y else w.live i' j' := by
      intro i' j'
      simp only [World.call, hadd, hins, setLive, hfields, hname, Option.getD_some, y]
    have hobj : (w.call (.add a)).obj = o' := by simp only [World.call, hadd, hins]
    have hadded : (w.call (.add a)).added = w.added + 1 := by
      simp only [World.call, hadd, hins]
    refine ⟨?_, by rw [hobj, hstatic, hstatic₁], ?_⟩
    · refine hinv.write (z := some y) hin (by rw [hobj]; exact hslot) hlive ⟨rfl, rfl, hne, rfl⟩
        ?_ (by rw [hadded]; exact Nat.le_succ _) (by rw [hobj, hadded, hkey'])
      intro z hz
      rw [← Option.some.inj hz, hadded]
      exact ⟨rfl, Nat.succ_pos _, Nat.le_refl _⟩
    · refine .register (y := y) hname rfl rfl (by rw [hadd, hins]) hfree hlive hadded ?_
      simp only [World.call, hadd, hins]
  · -- the name was not kept: the slot has an address and no key
    have hcall : w.call (.add a) = { w with obj := o' } := by simp only [World.call, hadd, hins]
    have hholds := hinv.slots i j e he hin.2.2
    rw [show ({ w with obj := o₁ } : World).live i j = none from hfree] at hholds
    rw [hcall]
    refine ⟨?_, by rw [hstatic, hstatic₁], .same rfl rfl rfl⟩
    refine hinv.write (z := none) hin hslot ?_ ⟨rfl, hholds.2⟩ ?_ (Nat.le_refl _) ?_
    · intro i' j'
      by_cases hij : i' = i ∧ j' = j
      · rw [if_pos hij, hij.1, hij.2]
        exact hfree
      · rw [if_neg hij]
    · intro y hy
      cases hy
    · show o'.key = keyAfter w.added
      rw [hkey', hkey₁, h.key]

/-- A name that is found in a dynamic table is that of the symbol registered there, and the index
is that symbol's. -/
theorem Inv.findName (h : Inv w) {name : String} {i j : Nat} {e : FxnTabElem}
    (hfind : findName w.obj name = some (i, j, e)) :
    ∃ y, w.live i j = some y ∧ y.name = name ∧ fxnIndex e.key i j = y.index := by
  obtain ⟨_, _, hj, he, hname⟩ := findName_eq_some hfind
  have hholds := h.slots i j e he hj
  cases hy : w.live i j with
  | none =>
    rw [hy] at hholds
    rw [hholds.1] at hname
    cases hname
  | some y =>
    rw [hy] at hholds
    refine ⟨y, rfl, ?_, ?_⟩
    · rw [hholds.1] at hname
      exact Option.some.inj hname
    · rw [hholds.2.2.2, h.index i j y hy]

theorem Inv.fields (h : Inv w) {i j : Nat} {y : Symbol} (hy : w.live i j = some y) :
    isStatic y.index = false ∧ keyField y.index = keyAfter y.serial ∧ tabIdx y.index = i ∧
    tabOff y.index = j := by
  obtain ⟨_, hlt, hj, _⟩ := h.inside i j y hy
  rw [h.index i j y hy]
  apply fields_fxnIndex (keyAfter_le _)
  · unfold maxTables at hlt
    omega
  · exact Nat.lt_of_lt_of_le hj (tabCount_le hlt)

theorem removeSymbol_cases (h : Inv w) (isSetup : Bool) (name : Option String) :
    (∃ status, status ≠ sSuccess ∧ removeSymbol w.obj isSetup name = (status, w.obj)) ∨
    (∃ i j y, w.live i j = some y ∧ isSetup = true ∧ name = some y.name ∧
      getSymIdx w.obj y.name = .ok y.index ∧
      removeSymbol w.obj isSetup name = (sSuccess, w.obj.setSlot i j fun _ => .empty)) := by
  unfold removeSymbol
  cases isSetup with
  | false => exact Or.inl ⟨eInvalidState, by decide, rfl⟩
  | true =>
    cases name with
    | none => exact Or.inl ⟨eInvalidArg, by decide, rfl⟩
    | some name =>
      simp only [Bool.true_eq_false, if_false]
      cases hsym : getSymIdx w.obj name with
      | error status =>
        refine Or.inl ⟨status, ?_, rfl⟩
        unfold getSymIdx at hsym
        split at hsym
        · cases hsym
        · split at hsym
          · cases hsym
          · cases hsym
            decide
      | ok fxnIdx =>
        unfold getSymIdx at hsym
        split at hsym
        next j _ =>
          cases hsym
          simp only [isStatic_or, if_true]
          exact Or.inl ⟨eSymbolStatic, by decide, rfl⟩
        next hstatic =>
          split at hsym
          next i j e hfind =>
            cases hsym
            obtain ⟨y, hy, rfl, hidx⟩ := h.findName hfind
            obtain ⟨hdyn, _, htab, hoff⟩ := h.fields hy
            have hsym : getSymIdx w.obj y.name = .ok y.index := by
              unfold getSymIdx
              rw [hstatic, hfind]
              exact congrArg Except.ok hidx
            refine Or.inr ⟨i, j, y, hy, trivial, rfl, hsym, ?_⟩
            simp only [hidx, hdyn, htab, hoff, Bool.false_eq_true, if_false]
          next => cases hsym

theorem call_remove (h : Inv w) (isSetup : Bool) (name : Option String) :
    Inv (w.call (.remove isSetup name)) ∧
    (w.call (.remove isSetup name)).obj.fxnTabStatic = w.obj.fxnTabStatic ∧
    Change w (w.call (.remove isSetup name)) (.remove isSetup name) := by
  rcases removeSymbol_cases h isSetup name with ⟨status, hne, hrem⟩ |
    ⟨i, j, y, hy, rfl, rfl, hsym, hrem⟩
  · have hcall : w.call (.remove isSetup name) = w := by
      simp only [World.call, hrem]
      cases getSymIdx w.obj (name.getD "") with
      | ok fxnIdx => exact if_neg hne
      | error _ => rfl
    rw [hcall]
    exact ⟨h, rfl, .same rfl rfl rfl⟩
  obtain ⟨_, _, htab, hoff⟩ := h.fields hy
  obtain ⟨hpos, hlt, hj, e, he⟩ := h.inside i j y hy
  have hcall : w.call (.remove true (some y.name)) =
      { w with
        obj := w.obj.setSlot i j fun _ => .empty
        live := setLive w.live y.index none
        removed := (y, w.added) :: w.removed } := by
    simp only [World.call, hrem, Option.getD_some, hsym, if_true, htab, hoff, hy,
      Option.toList_some, List.map_cons, List.map_nil, List.cons_append, List.nil_append]
  have hlive : ∀ i' j', (w.call (.remove true (some y.name))).live i' j' =
      if i' = i ∧ j' = j then none else w.live i' j' := by
    intro i' j'
    rw [hcall]
    simp only [setLive, htab, hoff]
  refine ⟨?_, by rw [hcall]; simp, .unregister hy hlive (by rw [hcall]) (by rw [hcall])⟩
  refine h.write (e := .empty) (z := none) ⟨hpos, hlt, hj⟩ ?_ hlive ⟨rfl, rfl⟩ ?_
    (by rw [hcall]) (by rw [hcall]; simpa using h.key)
  · intro i' j'
    rw [hcall]
    simp only [slot_setSlot, he, Option.map_some]
  · intro z hz
    cases hz

theorem call_spec (h : Inv w) (c : Call) :
    Inv (w.call c) ∧ (w.call c).obj.fxnTabStatic = w.obj.fxnTabStatic ∧ Change w (w.call c) c := by
  cases c with
  | add a => exact call_add h a
  | remove isSetup name => exact call_remove h isSetup name

end

theorem run_inv {fxns : List (String × UInt32)} {calls : List Call} {w : World}
    (h : run step (World.create fxns) calls = some w) : Inv w := by
  refine run_induct ?_ (inv_create fxns) h
  intro s c s' hs hstep
  rw [← Option.some.inj hstep]
  exact (call_spec hs c).1

/-! ## The soundness of a function index -/

/-- The index names the static function at the address, or a slot that the address is registered in
under the key of the index. -/
def Denotes (w : World) (fxnIdx addr : UInt32) : Prop :=
  if isStatic fxnIdx then
    ∃ slot, w.obj.fxnTabStatic[staticOffset fxnIdx]? = some slot ∧ slot.addr = addr
  else
    ∃ y, tabOff fxnIdx < tabCount (tabIdx fxnIdx) ∧ (w.obj.fxnTab (tabIdx fxnIdx)).isSome ∧
      w.live (tabIdx fxnIdx) (tabOff fxnIdx) = some y ∧ keyField y.index = keyField fxnIdx ∧
      y.addr = addr

/-- Success is reported only for a function that is registered and not NULL. -/
def Sound (beyond : Nat → Nat → FxnTabElem) (w : World) (fxnIdx : UInt32) : Prop :=
  ∀ addr, getFxnAddr beyond w.obj fxnIdx = .ok addr → addr ≠ 0 ∧ Denotes w fxnIdx addr

/-- The indices that slip through: those of a static function without an address, those with the
key 0 of a slot where nothing is registered, and those of an offset behind the table where memory
happens to have the key. -/
def Unchecked (beyond : Nat → Nat → FxnTabElem) (w : World) (fxnIdx : UInt32) : Prop :=
  if isStatic fxnIdx then
    ∃ slot, w.obj.fxnTabStatic[staticOffset fxnIdx]? = some slot ∧ slot.addr = 0
  else
    0 < tabIdx fxnIdx ∧ tabIdx fxnIdx < maxTables ∧ (w.obj.fxnTab (tabIdx fxnIdx)).isSome ∧
    if tabOff fxnIdx < tabCount (tabIdx fxnIdx) then
      w.live (tabIdx fxnIdx) (tabOff fxnIdx) = none ∧ keyField fxnIdx = 0
    else keyField fxnIdx = (beyond (tabIdx fxnIdx) (tabOff fxnIdx)).key

theorem sound_static {beyond : Nat → Nat → FxnTabElem} {w : World} {fxnIdx : UInt32}
    (hstatic : isStatic fxnIdx = true) :
    Sound beyond w fxnIdx ↔ ¬ Unchecked beyond w fxnIdx := by
  unfold Sound Unchecked getFxnAddr Denotes
  simp only [hstatic, if_true]
  cases hslot : w.obj.fxnTabStatic[staticOffset fxnIdx]? with
  | none => simp
  | some slot => simp

/-- Where a symbol is registered the key decides, and elsewhere the key must not fit. -/
theorem sound_dynamic {beyond : Nat → Nat → FxnTabElem} {w : World} (h : Inv w) {fxnIdx : UInt32}
    (hdyn : isStatic fxnIdx = false) :
    Sound beyond w fxnIdx ↔ ¬ Unchecked beyond w fxnIdx := by
  unfold Sound Unchecked getFxnAddr Denotes
  simp only [hdyn, Bool.false_eq_true, if_false]
  generalize tabIdx fxnIdx = i
  generalize tabOff fxnIdx = j
  generalize keyField fxnIdx = key
  by_cases hi : 0 < i ∧ i < maxTables
  · cases htab : w.obj.fxnTab i with
    | none => simp
    | some tab =>
      by_cases hj : j < tabCount i
      · have hslot : w.obj.slot i j = some (tab j) := slot_eq_some.mpr ⟨tab, htab, rfl⟩
        have hholds := h.slots i j (tab j) hslot hj
        cases hy : w.live i j with
        | none =>
          rw [hy] at hholds
          by_cases hk : key = 0
          · simp [hi, hj, hk, hholds.2]
          · simp [hi, hj, hk, hholds.2]
        | some y =>
          rw [hy] at hholds
          obtain ⟨_, haddr, hne, hkey⟩ := hholds
          simp only [hi, hj, haddr, hkey, if_true, and_self]
          have hfield := (h.fields hy).2.1
          by_cases hk : key = keyAfter y.serial
          · simp [hk, hne, hfield]
          · simp [hk]
      · by_cases hk : key = (beyond i j).key
        · simp [hi, hj, hk]
        · simp [hi, hj, hk]
  · have hi' : ¬ (0 < i ∧ i < maxTables ∧ (w.obj.fxnTab i).isSome = true ∧
        if j < tabCount i then w.live i j = none ∧ key = 0 else key = (beyond i j).key) := by
      intro hall
      exact hi ⟨hall.1, hall.2.1⟩
    simp [hi, hi']

/-- For every table that additions and removals can give and every index, what is accepted is a
registered function if and only if the index is not one that slips through. -/
theorem getFxnAddr_sound_iff (fxns : List (String × UInt32)) (calls : List Call) (w : World)
    (h : run step (World.create fxns) calls = some w) (beyond : Nat → Nat → FxnTabElem)
    (fxnIdx : UInt32) : Sound beyond w fxnIdx ↔ ¬ Unchecked beyond w fxnIdx := by
  cases hstatic : isStatic fxnIdx with
  | true => exact sound_static hstatic
  | false => exact sound_dynamic (run_inv h) hstatic

/-- A server with one function: the first slot of table 1 with the key 0x7FF. -/
def oneSymbol : List Call := [.add { funcName := some "f", addr := 0x8000 }]

theorem getFxnAddr_sound_iff_oneSymbol :
    ∃ w, run step (World.create []) oneSymbol = some w ∧
      (Sound (fun _ _ => .empty) w 0x7FF01000 ↔ ¬ Unchecked (fun _ _ => .empty) w 0x7FF01000) ∧
      getFxnAddr (fun _ _ => .empty) w.obj 0x7FF01000 = .ok 0x8000 :=
  ⟨_, rfl, getFxnAddr_sound_iff [] oneSymbol _ rfl _ _, rfl⟩

/-- The next slot of that table was never used; the index with the key 0 is accepted and gives a
NULL function. -/
theorem getFxnAddr_unused_slot :
    ¬ ∀ (fxns : List (String × UInt32)) (calls : List Call) (w : World),
      run step (World.create fxns) calls = some w →
      ∀ (beyond : Nat → Nat → FxnTabElem) (fxnIdx : UInt32), Sound beyond w fxnIdx := by
  intro hall
  have hsound := hall [] oneSymbol _ rfl (fun _ _ => .empty) 0x00001001
  exact (hsound 0 rfl).1 rfl

end Omap4Hal.Rcm.Symbols

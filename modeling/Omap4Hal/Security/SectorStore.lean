import Omap4Hal.Lib.Run
import Omap4Hal.Security.PartitionFile

/- A partition as an array of sectors. The abstract partition (`Store`) is absent, or
   closed or opened with an array: READ gives back a sector, WRITE stores one, SET_SIZE
   cuts the array or fills it up. A run of the daemon's operations carries the array
   along, told only which operations were made and which of them returned success,
   and `SectorStore` says that file and array have stayed the same thing.

   Offsets and sizes are 32-bit products of a sector number and the sector size.
   `sectorStore_iff`: the file is the array for as long as no such product wraps
   into the file. -/
namespace Omap4Hal.Security
open Lib

/-! ## The abstract partition -/

inductive Store where
  | absent
  | closed (sectors : BlockArray UInt8)
  | opened (sectors : BlockArray UInt8)

/-- One operation on the partition: the workspace it finds, and what the file system
does to it. -/
structure Call where
  op : FileOp
  workspace : List UInt8
  fault : Option Fault

/-- The states in which an operation may succeed. -/
def Store.Accepts : Store → FileOp → Prop
  | .opened _, .create => False
  | _, .create => True
  | .closed _, .open => True
  | _, .open => False
  | .closed _, .destroy => True
  | _, .destroy => False
  | .opened _, _ => True
  | _, _ => False

/-- What an operation that has returned success has done. -/
def Store.succeed (ss : SectorSize) (ws : List UInt8) : Store → FileOp → Store
  | _, .create => .opened .empty
  | .closed A, .open => .opened A
  | .opened A, .close => .closed A
  | .closed _, .destroy => .absent
  | .opened A, .setSize n => .opened (A.resize (List.replicate ss.size fillByte) n.toNat)
  | .opened A, .write i off =>
    .opened (A.put (List.replicate ss.size 0) i.toNat (readAt ws off.toNat ss.size))
  | a, _ => a

/-- What an operation gives back is right: it succeeds only where it may, OPEN
reports the number of sectors, and READ delivers the sector, if there is one. -/
def Store.Answers (a : Store) (c : Call) (r : Outcome) : Prop :=
  (r.nError = sSuccess → a.Accepts c.op) ∧
  match a, c.op with
  | .closed A, .open => r.nError = sSuccess → r.size.toNat = A.count
  | .opened A, .read i off =>
    (r.nError = sSuccess ↔ ∃ d, A.get i.toNat = some d) ∧
    ∀ d, r.nError = sSuccess → A.get i.toNat = some d →
      r.workspace = writeAt 0 c.workspace off.toNat d
  | _, _ => True

/-! ## Runs -/

/-- The partition, the array it stands for, and whether the last answer was right. -/
structure Traced where
  partition : Partition
  store : Store
  answered : Prop

def Traced.next (ss : SectorSize) (t : Traced) (c : Call) : Traced :=
  let r := c.op.perform ss t.partition c.workspace c.fault
  { partition := r.partition
    store := if r.nError = sSuccess then t.store.succeed ss c.workspace c.op else t.store
    answered := t.store.Answers c r }

def Traced.step (ss : SectorSize) (t : Traced) (c : Call) : Option Traced :=
  some (t.next ss c)

/-- The file is the array. -/
def Represents (ss : SectorSize) : Partition → Store → Prop
  | .absent, .absent => True
  | .closed f, .closed A => Holds ss.size f A
  | .opened f, .opened A => Holds ss.size f A
  | _, _ => False

/-- The partition has behaved as an array of sectors up to this point. -/
def SectorStore (ss : SectorSize) (t : Traced) : Prop :=
  Represents ss t.partition t.store ∧ t.answered

/-- A file of whole sectors as the daemon finds it, or none. -/
structure Image (ss : SectorSize) where
  content : Option (List UInt8)
  whole : ∀ f, content = some f → f.length = f.length / ss.size * ss.size
  fits : ∀ f, content = some f → f.length ≤ fileLimit

/-- The daemon starts with the partition closed. -/
def Traced.initial {ss : SectorSize} (img : Image ss) : Traced :=
  match img.content with
  | none => ⟨.absent, .absent, True⟩
  | some f =>
    ⟨.closed f, .closed ⟨f.length / ss.size, fun i => readAt f (i * ss.size) ss.size⟩, True⟩

/-- The system calls succeed, those that write staying below the largest file, and
the sector lies inside the workspace. -/
def CallsSucceed (ss : SectorSize) (t : Traced) (c : Call) : Prop :=
  c.fault = none ∧
  match t.partition, c.op with
  | .opened _, .write i off =>
    off.toNat + ss.size ≤ c.workspace.length ∧
    ((i * ss.bytes).toNat < 2 ^ 31 → (i * ss.bytes).toNat + ss.size ≤ fileLimit)
  | .opened _, .read _ off => off.toNat + ss.size ≤ c.workspace.length
  | .opened f, .setSize n =>
    (ftellEnd f / ss.bytes) < n →
      f.length + ((n - ftellEnd f / ss.bytes) * ss.bytes).toNat ≤ fileLimit
  | _, _ => True

/-- No product wraps into the file: a sector number whose offset has passed 2^32
comes back as an offset that `fseek` refuses, or, when reading, one that lies past
the end, and no file grows by 2^32 bytes. -/
def NoWrap (ss : SectorSize) (t : Traced) (c : Call) : Prop :=
  match t.partition, c.op with
  | .opened _, .write i _ =>
    i.toNat * ss.size < 2 ^ 32 ∨ 2 ^ 31 ≤ i.toNat * ss.size % 2 ^ 32
  | .opened f, .read i _ =>
    i.toNat * ss.size < 2 ^ 32 ∨ 2 ^ 31 ≤ i.toNat * ss.size % 2 ^ 32 ∨
      f.length < i.toNat * ss.size % 2 ^ 32 + ss.size
  | .opened f, .setSize n => (n.toNat - f.length / ss.size) * ss.size < 2 ^ 32
  | _, _ => True

/-! ## Offsets and sizes -/

variable {ss : SectorSize} {f : List UInt8} {A : BlockArray UInt8}

theorem SectorSize.size_bounds (ss : SectorSize) : 0 < ss.size ∧ ss.size ≤ 4096 := by
  rcases ss.valid with h | h | h | h <;> rw [SectorSize.size, h] <;> decide

theorem toNat_offset (i : UInt32) : (i * ss.bytes).toNat = i.toNat * ss.size % 2 ^ 32 :=
  UInt32.toNat_mul i ss.bytes

theorem fseekSet_offset (i : UInt32) :
    fseekSet (i * ss.bytes) =
      if i.toNat * ss.size % 2 ^ 32 < 2 ^ 31 then some (i.toNat * ss.size % 2 ^ 32) else none := by
  rw [fseekSet, toNat_offset]

theorem sectorCount (hf : f.length ≤ fileLimit) :
    (ftellEnd f / ss.bytes).toNat = f.length / ss.size := by
  rw [ftellEnd, if_pos hf, UInt32.toNat_div, UInt32.toNat_ofNat_of_lt']
  · rfl
  · simp only [fileLimit] at hf
    simp only [UInt32.size]
    omega

theorem fputcLoop_none (n : Nat) (h : f.length + n ≤ fileLimit) :
    fputcLoop none n f = (none, f ++ List.replicate n fillByte) := by
  induction n generalizing f with
  | zero => simp [fputcLoop]
  | succ n ih =>
    have hlen : (f ++ [fillByte]).length + n ≤ fileLimit := by
      rw [List.length_append, List.length_singleton]
      omega
    simp only [fputcLoop, Option.map_none]
    rw [if_pos (by omega), ih hlen, List.append_assoc, List.singleton_append,
      ← List.replicate_succ]

/-! ## The operations on an opened file -/

theorem partitionWrite_eq {ws : List UInt8} {i off : UInt32}
    (hfit : (i * ss.bytes).toNat < 2 ^ 31 → (i * ss.bytes).toNat + ss.size ≤ fileLimit) :
    partitionWrite ss (.opened f) ws i off none =
      if i.toNat * ss.size % 2 ^ 32 < 2 ^ 31 then
        (sSuccess, .opened (writeAt 0 f (i.toNat * ss.size % 2 ^ 32)
          (readAt ws off.toNat ss.size)))
      else (errno2serror .einval, .opened f) := by
  rw [toNat_offset] at hfit
  simp only [partitionWrite, fseekSet_offset]
  by_cases ho : i.toNat * ss.size % 2 ^ 32 < 2 ^ 31
  · simp only [ho, if_true, hfit ho]
  · simp only [ho, if_false]

theorem partitionRead_eq (ws : List UInt8) (i off : UInt32) :
    (partitionRead ss (.opened f) ws i off none).1 = sSuccess ↔
      i.toNat * ss.size % 2 ^ 32 < 2 ^ 31 ∧
        (readAt f (i.toNat * ss.size % 2 ^ 32) ss.size).length = ss.size := by
  simp only [partitionRead, fseekSet_offset]
  by_cases ho : i.toNat * ss.size % 2 ^ 32 < 2 ^ 31
  · simp only [ho, if_true, true_and]
    split
    next hd => exact iff_of_true rfl hd
    next hd => exact iff_of_false (show sErrorItemNotFound ≠ sSuccess by decide) hd
  · simp only [ho, if_false, false_and, iff_false]
    exact errno2serror_ne_success .einval

theorem partitionRead_data {ws : List UInt8} {i off : UInt32}
    (h : (partitionRead ss (.opened f) ws i off none).1 = sSuccess) :
    (partitionRead ss (.opened f) ws i off none).2 =
      writeAt 0 ws off.toNat (readAt f (i.toNat * ss.size % 2 ^ 32) ss.size) := by
  obtain ⟨ho, hd⟩ := (partitionRead_eq ws i off).mp h
  simp only [partitionRead, fseekSet_offset, ho, if_true, hd]

theorem addedBytes {n : UInt32} (hh : Holds ss.size f A) (hf : f.length ≤ fileLimit)
    (hn : A.count < n.toNat) :
    ftellEnd f / ss.bytes < n ∧
      ((n - ftellEnd f / ss.bytes) * ss.bytes).toNat = (n.toNat - A.count) * ss.size % 2 ^ 32 := by
  have hcount : (ftellEnd f / ss.bytes).toNat = A.count := by
    rw [sectorCount hf, hh.length_div ss.size_bounds.1]
  have hlt : ftellEnd f / ss.bytes < n := by rwa [UInt32.lt_iff_toNat_lt, hcount]
  refine ⟨hlt, ?_⟩
  rw [toNat_offset, UInt32.toNat_sub_of_le _ _ (UInt32.le_of_lt hlt), hcount]

theorem partitionSetSize_eq {n : UInt32} (hh : Holds ss.size f A) (hf : f.length ≤ fileLimit)
    (hfit : A.count < n.toNat → f.length + (n.toNat - A.count) * ss.size % 2 ^ 32 ≤ fileLimit) :
    partitionSetSize ss (.opened f) n none =
      (sSuccess, .opened (if A.count < n.toNat then
          f ++ List.replicate ((n.toNat - A.count) * ss.size % 2 ^ 32) fillByte
        else f.take (n.toNat * ss.size))) := by
  have hcount : (ftellEnd f / ss.bytes).toNat = A.count := by
    rw [sectorCount hf, hh.length_div ss.size_bounds.1]
  simp only [partitionSetSize]
  by_cases hn : A.count < n.toNat
  · obtain ⟨hlt, hadd⟩ := addedBytes hh hf hn
    rw [if_pos hlt, if_pos hn, hadd, fputcLoop_none _ (hfit hn)]
  · have hge : ¬ ftellEnd f / ss.bytes < n := by rwa [UInt32.lt_iff_toNat_lt, hcount]
    rw [if_neg hge, if_neg hn]
    split
    next hcut =>
      rw [UInt32.lt_iff_toNat_lt, hcount] at hcut
      -- below the old size the product is below the file limit
      have hend := block_end_le ss.size hcut
      rw [← hh.length] at hend
      simp only [fileLimit] at hf
      rw [toNat_offset, Nat.mod_eq_of_lt (by omega)]
    next hcut =>
      rw [UInt32.lt_iff_toNat_lt, hcount] at hcut
      have heq : n.toNat = A.count := by omega
      rw [heq, ← hh.length, List.take_length]

theorem CallsSucceed.setSize {q : Prop} {ws : List UInt8} {n : UInt32} (hh : Holds ss.size f A)
    (hf : f.length ≤ fileLimit)
    (hc : CallsSucceed ss ⟨.opened f, .opened A, q⟩ ⟨.setSize n, ws, none⟩)
    (hn : A.count < n.toNat) :
    f.length + (n.toNat - A.count) * ss.size % 2 ^ 32 ≤ fileLimit := by
  obtain ⟨hlt, hadd⟩ := addedBytes hh hf hn
  rw [← hadd]
  exact hc.2 hlt

/-! ## One call -/

/-- The file is below the largest one. -/
def Partition.Fits : Partition → Prop
  | .absent => True
  | .closed f => f.length ≤ fileLimit
  | .opened f => f.length ≤ fileLimit

structure StoreInv (ss : SectorSize) (t : Traced) : Prop where
  store : SectorStore ss t
  fits : t.partition.Fits

theorem write_inv {q : Prop} {ws : List UInt8} {i off : UInt32} (hh : Holds ss.size f A)
    (hf : f.length ≤ fileLimit)
    (hc : CallsSucceed ss ⟨.opened f, .opened A, q⟩ ⟨.write i off, ws, none⟩)
    (hw : NoWrap ss ⟨.opened f, .opened A, q⟩ ⟨.write i off, ws, none⟩) :
    StoreInv ss (Traced.next ss ⟨.opened f, .opened A, q⟩ ⟨.write i off, ws, none⟩) := by
  obtain ⟨-, hoff, hfit⟩ := hc
  have hd : (readAt ws off.toNat ss.size).length = ss.size := length_readAt_of_le hoff
  simp only [Traced.next, FileOp.perform, partitionWrite_eq hfit]
  split
  next ho =>
    -- an offset that `fseek` takes and that has not wrapped is the product itself
    have hmod : i.toNat * ss.size % 2 ^ 32 = i.toNat * ss.size := by
      rcases hw with hw | hw
      · exact Nat.mod_eq_of_lt hw
      · omega
    rw [toNat_offset, hmod] at hfit
    rw [hmod] at ho ⊢
    refine ⟨⟨hh.put 0 hd i.toNat, fun _ => trivial, trivial⟩, ?_⟩
    show (writeAt 0 f (i.toNat * ss.size) (readAt ws off.toNat ss.size)).length ≤ fileLimit
    rw [length_writeAt, hd]
    exact Nat.max_le.mpr ⟨hf, hfit ho⟩
  next ho =>
    rw [if_neg (errno2serror_ne_success .einval)]
    exact ⟨⟨hh, fun _ => trivial, trivial⟩, hf⟩

theorem partitionRead_iff {q : Prop} {ws : List UInt8} {i off : UInt32} (hh : Holds ss.size f A)
    (hf : f.length ≤ fileLimit)
    (hw : NoWrap ss ⟨.opened f, .opened A, q⟩ ⟨.read i off, ws, none⟩) :
    (partitionRead ss (.opened f) ws i off none).1 = sSuccess ↔ i.toNat < A.count := by
  have hpos := ss.size_bounds.1
  have hlimit : fileLimit < 2 ^ 31 := by decide
  rw [partitionRead_eq]
  constructor
  · intro h
    obtain ⟨ho, hd⟩ := h
    rw [length_readAt] at hd
    rcases hw with hw | hw | hw
    · rw [Nat.mod_eq_of_lt hw] at hd
      rw [← hh.length_readAt_iff hpos, length_readAt]
      exact hd
    · omega
    · omega
  · intro hi
    have hend := block_end_le ss.size hi
    rw [← hh.length] at hend
    rw [Nat.mod_eq_of_lt (by omega)]
    exact ⟨by omega, (hh.length_readAt_iff hpos i.toNat).mpr hi⟩

theorem get_eq_some_iff {i : Nat} : (∃ d, A.get i = some d) ↔ i < A.count := by
  rw [BlockArray.get]
  split
  next h => simp [h]
  next h => simp [h]

theorem read_inv {q : Prop} {ws : List UInt8} {i off : UInt32} (hh : Holds ss.size f A)
    (hf : f.length ≤ fileLimit)
    (hw : NoWrap ss ⟨.opened f, .opened A, q⟩ ⟨.read i off, ws, none⟩) :
    StoreInv ss (Traced.next ss ⟨.opened f, .opened A, q⟩ ⟨.read i off, ws, none⟩) := by
  have hiff := partitionRead_iff hh hf hw
  refine ⟨⟨?_, fun _ => trivial, ?_, ?_⟩, hf⟩
  · show Represents ss (.opened f) (ite _ (.opened A) (.opened A))
    rw [ite_self]
    exact hh
  · rw [get_eq_some_iff]
    exact hiff
  · intro d hs hd
    have hi : i.toNat < A.count := hiff.mp hs
    have hend := block_end_le ss.size hi
    rw [← hh.length] at hend
    simp only [fileLimit] at hf
    rw [BlockArray.get, if_pos hi, Option.some.injEq] at hd
    show (partitionRead ss (.opened f) ws i off none).2 = _
    rw [partitionRead_data hs, Nat.mod_eq_of_lt (by omega), hh.block _ hi, hd]

theorem setSize_inv {q : Prop} {ws : List UInt8} {n : UInt32} (hh : Holds ss.size f A)
    (hf : f.length ≤ fileLimit)
    (hc : CallsSucceed ss ⟨.opened f, .opened A, q⟩ ⟨.setSize n, ws, none⟩)
    (hw : NoWrap ss ⟨.opened f, .opened A, q⟩ ⟨.setSize n, ws, none⟩) :
    StoreInv ss (Traced.next ss ⟨.opened f, .opened A, q⟩ ⟨.setSize n, ws, none⟩) := by
  have hfit := hc.setSize hh hf
  have hsize : (n.toNat - A.count) * ss.size < 2 ^ 32 := by
    rw [← hh.length_div ss.size_bounds.1]
    exact hw
  rw [Nat.mod_eq_of_lt hsize] at hfit
  simp only [Traced.next, FileOp.perform, partitionSetSize_eq hh hf (hc.setSize hh hf),
    if_true, Store.succeed]
  by_cases hn : A.count < n.toNat
  · simp only [hn, if_true, Nat.mod_eq_of_lt hsize]
    refine ⟨⟨hh.enlarge fillByte (by omega), fun _ => trivial, trivial⟩, ?_⟩
    show (f ++ List.replicate ((n.toNat - A.count) * ss.size) fillByte).length ≤ fileLimit
    rw [List.length_append, List.length_replicate]
    exact hfit hn
  · simp only [hn, if_false]
    refine ⟨⟨hh.truncate _ (by omega), fun _ => trivial, trivial⟩, ?_⟩
    show (f.take (n.toNat * ss.size)).length ≤ fileLimit
    rw [List.length_take]
    omega

theorem refused_inv {t : Traced} {c : Call} {e : UInt32} (ht : StoreInv ss t) (he : e ≠ sSuccess)
    (hr : c.op.perform ss t.partition c.workspace c.fault = ⟨e, 0, t.partition, c.workspace⟩)
    (ha : t.store.Answers c ⟨e, 0, t.partition, c.workspace⟩) : StoreInv ss (t.next ss c) := by
  simp only [Traced.next, hr, if_neg he]
  exact ⟨⟨ht.store.1, ha⟩, ht.fits⟩

theorem next_inv {t : Traced} {c : Call} (ht : StoreInv ss t) (hc : CallsSucceed ss t c)
    (hw : NoWrap ss t c) : StoreInv ss (t.next ss c) := by
  obtain ⟨p, a, q⟩ := t
  obtain ⟨op, ws, fault⟩ := c
  obtain rfl : fault = none := hc.1
  have hpa := ht.store.1
  have hf := ht.fits
  have hstate : sErrorBadState ≠ sSuccess := by decide
  have hfound : sErrorItemNotFound ≠ sSuccess := by decide
  cases p with
  | absent =>
    cases a with
    | absent =>
      cases op with
      | create => exact ⟨⟨holds_nil ss.size, fun _ => trivial, trivial⟩, Nat.zero_le _⟩
      | «open» => exact refused_inv ht hfound rfl ⟨fun h => absurd h hfound, trivial⟩
      | destroy => exact refused_inv ht hfound rfl ⟨fun h => absurd h hfound, trivial⟩
      | _ => exact refused_inv ht hstate rfl ⟨fun h => absurd h hstate, trivial⟩
    | closed A => exact hpa.elim
    | opened A => exact hpa.elim
  | closed f =>
    cases a with
    | absent => exact hpa.elim
    | closed A =>
      cases op with
      | create => exact ⟨⟨holds_nil ss.size, fun _ => trivial, trivial⟩, Nat.zero_le _⟩
      | «open» =>
        refine ⟨⟨hpa, fun _ => trivial, fun _ => ?_⟩, hf⟩
        exact (sectorCount hf).trans (Holds.length_div hpa ss.size_bounds.1)
      | destroy => exact ⟨⟨trivial, fun _ => trivial, trivial⟩, trivial⟩
      | _ => exact refused_inv ht hstate rfl ⟨fun h => absurd h hstate, trivial⟩
    | opened A => exact hpa.elim
  | opened f =>
    cases a with
    | absent => exact hpa.elim
    | closed A => exact hpa.elim
    | opened A =>
      cases op with
      | write i off => exact write_inv hpa hf hc hw
      | read i off => exact read_inv hpa hf hw
      | setSize n => exact setSize_inv hpa hf hc hw
      | close => exact ⟨⟨hpa, fun _ => trivial, trivial⟩, hf⟩
      | sync => exact ⟨⟨hpa, fun _ => trivial, trivial⟩, hf⟩
      | _ => exact refused_inv ht hstate rfl ⟨fun h => absurd h hstate, trivial⟩

theorem write_wrapped {q : Prop} {ws : List UInt8} {i off : UInt32} (hf : f.length ≤ fileLimit)
    (hc : CallsSucceed ss ⟨.opened f, .opened A, q⟩ ⟨.write i off, ws, none⟩)
    (hw : ¬ NoWrap ss ⟨.opened f, .opened A, q⟩ ⟨.write i off, ws, none⟩) :
    ¬ SectorStore ss (Traced.next ss ⟨.opened f, .opened A, q⟩ ⟨.write i off, ws, none⟩) := by
  obtain ⟨-, hoff, hfit⟩ := hc
  obtain ⟨hlarge, ho⟩ := not_or.mp hw
  have ho' := Nat.not_le.mp ho
  have hd : (readAt ws off.toNat ss.size).length = ss.size := length_readAt_of_le hoff
  simp only [Traced.next, FileOp.perform, partitionWrite_eq hfit, if_pos ho', if_true,
    Store.succeed]
  intro h
  -- the array now reaches sector `i`, past 2^32 bytes; the file ends below 2^31
  have hlen := Holds.length h.1
  rw [toNat_offset] at hfit
  have hbound := hfit ho'
  have hcount : i.toNat * ss.size ≤ max A.count (i.toNat + 1) * ss.size :=
    Nat.mul_le_mul_right _ (by omega)
  simp only [length_writeAt, hd, BlockArray.put] at hlen
  simp only [fileLimit] at hf hbound
  omega

theorem read_wrapped {q : Prop} {ws : List UInt8} {i off : UInt32} (hh : Holds ss.size f A)
    (hf : f.length ≤ fileLimit)
    (hw : ¬ NoWrap ss ⟨.opened f, .opened A, q⟩ ⟨.read i off, ws, none⟩) :
    ¬ SectorStore ss (Traced.next ss ⟨.opened f, .opened A, q⟩ ⟨.read i off, ws, none⟩) := by
  obtain ⟨hlarge, hw'⟩ := not_or.mp hw
  obtain ⟨ho, hshort⟩ := not_or.mp hw'
  have hread : (partitionRead ss (.opened f) ws i off none).1 = sSuccess := by
    rw [partitionRead_eq]
    exact ⟨Nat.not_le.mp ho, length_readAt_of_le (Nat.not_lt.mp hshort)⟩
  intro h
  -- a right answer would mean that the array has sector `i`, past the end of the file
  have hi : i.toNat < A.count := get_eq_some_iff.mp (h.2.2.1.mp hread)
  have hend := block_end_le ss.size hi
  rw [← hh.length] at hend
  simp only [fileLimit] at hf
  omega

theorem setSize_wrapped {q : Prop} {ws : List UInt8} {n : UInt32} (hh : Holds ss.size f A)
    (hf : f.length ≤ fileLimit)
    (hc : CallsSucceed ss ⟨.opened f, .opened A, q⟩ ⟨.setSize n, ws, none⟩)
    (hw : ¬ NoWrap ss ⟨.opened f, .opened A, q⟩ ⟨.setSize n, ws, none⟩) :
    ¬ SectorStore ss (Traced.next ss ⟨.opened f, .opened A, q⟩ ⟨.setSize n, ws, none⟩) := by
  have hsize : ¬ (n.toNat - A.count) * ss.size < 2 ^ 32 := by
    rw [← hh.length_div ss.size_bounds.1]
    exact hw
  have hn : A.count < n.toNat := by
    by_contra hn
    rw [Nat.sub_eq_zero_of_le (Nat.not_lt.mp hn)] at hsize
    omega
  have hfit := hc.setSize hh hf hn
  simp only [Traced.next, FileOp.perform, partitionSetSize_eq hh hf (hc.setSize hh hf),
    if_true, Store.succeed, hn]
  intro h
  have hlen := Holds.length h.1
  have hcount : (n.toNat - A.count) * ss.size ≤ n.toNat * ss.size :=
    Nat.mul_le_mul_right _ (by omega)
  simp only [List.length_append, List.length_replicate, BlockArray.resize] at hlen
  simp only [fileLimit] at hfit
  omega

theorem next_not_store {t : Traced} {c : Call} (ht : StoreInv ss t) (hc : CallsSucceed ss t c)
    (hw : ¬ NoWrap ss t c) : ¬ SectorStore ss (t.next ss c) := by
  obtain ⟨p, a, q⟩ := t
  obtain ⟨op, ws, fault⟩ := c
  obtain rfl : fault = none := hc.1
  have hpa := ht.store.1
  have hf := ht.fits
  cases p with
  | absent => exact absurd trivial hw
  | closed f => exact absurd trivial hw
  | opened f =>
    cases a with
    | absent => exact hpa.elim
    | closed A => exact hpa.elim
    | opened A =>
      cases op with
      | write i off => exact write_wrapped hf hc hw
      | read i off => exact read_wrapped hpa hf hw
      | setSize n => exact setSize_wrapped hpa hf hc hw
      | _ => exact absurd trivial hw

/-! ## Runs of calls -/

theorem initial_storeInv (img : Image ss) : StoreInv ss (Traced.initial img) := by
  rw [Traced.initial]
  split
  next h => exact ⟨⟨trivial, trivial⟩, trivial⟩
  next f h => exact ⟨⟨holds_of_length (img.whole f h), trivial⟩, img.fits f h⟩

/-- From any file of whole sectors, and for any calls whose system calls succeed: the
partition behaves as an array of sectors for as long as no product of a sector
number and the sector size wraps into the file. -/
theorem sectorStore_iff (img : Image ss) (cs : List Call)
    (hc : Guarded (Traced.step ss) (CallsSucceed ss) (Traced.initial img) cs) :
    Throughout (Traced.step ss) (SectorStore ss) (Traced.initial img) cs ↔
      Guarded (Traced.step ss) (NoWrap ss) (Traced.initial img) cs := by
  apply throughout_iff_guarded_under _ _ _ (initial_storeInv img) hc
  · intro t ht
    exact ht.store
  · intro t c t' ht hc hw h
    cases h
    exact next_inv ht hc hw
  · intro t c ht hc hw
    exact ⟨t.next ss c, rfl, next_not_store ht hc hw⟩

/-- A workspace that holds one sector of 512 equal bytes. -/
def oneSector (b : UInt8) : List UInt8 := List.replicate 512 b

theorem length_oneSector (b : UInt8) : (oneSector b).length = 512 := List.length_replicate

def sector512 : SectorSize := ⟨512, Or.inl rfl⟩

def noFile : Image sector512 where
  content := none
  whole := by
    intro f h
    cases h
  fits := by
    intro f h
    cases h

theorem sectorStore_one_sector :
    Throughout (Traced.step sector512) (SectorStore sector512) (Traced.initial noFile)
      [⟨.create, [], none⟩, ⟨.write 0 0, oneSector 1, none⟩, ⟨.read 0 0, oneSector 0, none⟩] := by
  refine (sectorStore_iff noFile _ ?_).mpr ?_
  · refine ⟨⟨rfl, trivial⟩, ?_⟩
    intro s₁ h₁
    cases h₁
    refine ⟨⟨rfl, ?_, fun _ => ?_⟩, ?_⟩
    · exact Nat.le_of_eq (length_oneSector 1).symm
    · decide
    · intro s₂ h₂
      cases h₂
      refine ⟨⟨rfl, ?_⟩, fun _ _ => trivial⟩
      exact Nat.le_of_eq (length_oneSector 0).symm
  · refine ⟨trivial, ?_⟩
    intro s₁ h₁
    cases h₁
    refine ⟨Or.inl (by decide), ?_⟩
    intro s₂ h₂
    cases h₂
    exact ⟨Or.inl (by decide), fun _ _ => trivial⟩

/-- Sector 0x800000 of 512 bytes is sector 0: writing it overwrites sector 0. -/
theorem sectorStore_broken :
    Guarded (Traced.step sector512) (CallsSucceed sector512) (Traced.initial noFile)
        [⟨.create, [], none⟩, ⟨.write 0 0, oneSector 1, none⟩,
          ⟨.write 0x800000 0, oneSector 2, none⟩] ∧
      (run (Traced.step sector512) (Traced.initial noFile)
        [⟨.create, [], none⟩, ⟨.write 0 0, oneSector 1, none⟩,
          ⟨.write 0x800000 0, oneSector 2, none⟩]).map (·.partition) =
        some (.opened (oneSector 2)) ∧
      ¬ Throughout (Traced.step sector512) (SectorStore sector512) (Traced.initial noFile)
        [⟨.create, [], none⟩, ⟨.write 0 0, oneSector 1, none⟩,
          ⟨.write 0x800000 0, oneSector 2, none⟩] := by
  have hone := Nat.le_of_eq (length_oneSector 1).symm
  have htwo := Nat.le_of_eq (length_oneSector 2).symm
  refine ⟨?_, ?_, ?_⟩
  · refine ⟨⟨rfl, trivial⟩, ?_⟩
    intro s₁ h₁
    cases h₁
    refine ⟨⟨rfl, hone, fun _ => by decide⟩, ?_⟩
    intro s₂ h₂
    cases h₂
    exact ⟨⟨rfl, htwo, fun _ => by decide⟩, fun _ _ => trivial⟩
  · decide +kernel
  · intro h
    have hlast := ((h.2 _ rfl).2 _ rfl).2 _ rfl
    have hfile : (writeAt 0 [] 0 (readAt (oneSector 1) 0 512)).length ≤ fileLimit := by
      decide +kernel
    have hwrap : ¬ (0x800000 * 512 < 2 ^ 32 ∨ 2 ^ 31 ≤ 0x800000 * 512 % 2 ^ 32) := by decide
    exact @write_wrapped sector512 _ _ _ (oneSector 2) 0x800000 0 hfile
      ⟨rfl, htwo, fun _ => by decide⟩ hwrap hlast

end Omap4Hal.Security

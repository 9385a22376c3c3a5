import Mathlib.Algebra.Group.Nat.Defs
import Omap4Hal.Lib.Extent

/- The partition files of the secure-storage daemon (`delegation_client.c`):
   `partitionCreate`, `partitionOpen`, `partitionClose`, `partitionDestroy`,
   `partitionRead`, `partitionWrite`, `partitionSetSize` and `partitionSync` for one
   partition.

   A file is its bytes, and a stdio stream on it is taken as unbuffered. The daemon
   is a 32-bit program: `long` and `off_t` have 32 bits, so a file ends at
   `fileLimit` and an offset from 2^31 on is negative for `fseek`. Which of the
   system calls of an operation fails is an input of the operation (`Fault`).

   READ and WRITE do not check the workspace offset. `FileOp.Inside` says that an
   operation moves only bytes of the workspace; what is copied otherwise is not said
   here. -/
namespace Omap4Hal.Security
open Lib

/-! ## Results -/

def sSuccess : UInt32 := 0x00000000
def sErrorBadParameters : UInt32 := 0xFFFF0006
def sErrorBadState : UInt32 := 0xFFFF0007
def sErrorItemNotFound : UInt32 := 0xFFFF0008
def sErrorOutOfMemory : UInt32 := 0xFFFF000C
def sErrorNoMoreHandles : UInt32 := 0xFFFF0013
def sErrorItemExists : UInt32 := 0xFFFF3012
def sErrorStorageNoSpace : UInt32 := 0xFFFF3041
def sErrorStorageUnreachable : UInt32 := 0xFFFF3046

/-- The values of `errno` that `errno2serror` names, and the rest. -/
inductive Errno where
  | einval
  | emfile
  | enoent
  | eexist
  | enospc
  | enomem
  | ebadf
  | eacces
  | other
  deriving DecidableEq, Repr

def errno2serror : Errno → UInt32
  | .einval => sErrorBadParameters
  | .emfile => sErrorNoMoreHandles
  | .enoent => sErrorItemNotFound
  | .eexist => sErrorItemExists
  | .enospc => sErrorStorageNoSpace
  | .enomem => sErrorOutOfMemory
  | .ebadf => sErrorStorageUnreachable
  | .eacces => sErrorStorageUnreachable
  | .other => sErrorStorageUnreachable

theorem errno2serror_ne_success (e : Errno) : errno2serror e ≠ sSuccess := by
  cases e <;> decide

/-! ## Files -/

/-- The sector sizes that `createSession` accepts. -/
structure SectorSize where
  bytes : UInt32
  valid : bytes = 512 ∨ bytes = 1024 ∨ bytes = 2048 ∨ bytes = 4096

def SectorSize.size (ss : SectorSize) : Nat := ss.bytes.toNat

/-- A partition: its file, and whether `g_pPartitionFiles` has a stream on it. -/
inductive Partition where
  | absent
  | closed (content : List UInt8)
  | opened (content : List UInt8)
  deriving DecidableEq, Repr

/-- The largest file a 32-bit `off_t` reaches. -/
def fileLimit : Nat := 2 ^ 31 - 1

/-- A system call that fails: the first of the operation, or the one after it, when
that many bytes have been transferred. -/
inductive Fault where
  | first (errno : Errno)
  | later (errno : Errno) (done : Nat)
  deriving DecidableEq, Repr

/-- The byte that fills new sectors. -/
def fillByte : UInt8 := 0xA5

/-- `fseek(pFile, offset, SEEK_SET)`: a negative `long` is refused. -/
def fseekSet (offset : UInt32) : Option Nat :=
  if offset.toNat < 2 ^ 31 then some offset.toNat else none

/-- `ftell` at the end of the file, as the `uint32_t` it is divided as. -/
def ftellEnd (f : List UInt8) : UInt32 :=
  if f.length ≤ fileLimit then UInt32.ofNat f.length else 0xFFFFFFFF

/-- The bytes of a write that does not go through reach the file in part. -/
def writePart (f : List UInt8) (o : Nat) (d : List UInt8) : List UInt8 :=
  if d = [] then f else writeAt 0 f o d

/-- The loop of `partitionSetSize` over `fputc`. `due` counts down to a failing call. -/
def fputcLoop : Option (Errno × Nat) → Nat → List UInt8 → Option Errno × List UInt8
  | _, 0, f => (none, f)
  | due, n + 1, f =>
    match due with
    | some (e, 0) => (some e, f)
    | _ =>
      if f.length < fileLimit then
        fputcLoop (due.map fun d => (d.1, d.2 - 1)) n (f ++ [fillByte])
      else (some .other, f)

/-! ## Instructions -/

def partitionDestroy (p : Partition) (fault : Option Fault) : UInt32 × Partition :=
  match p with
  | .opened _ => (sErrorBadState, p)
  | _ =>
    match fault with
    | some (.first e) => (errno2serror e, p)
    | _ =>
      match p with
      | .absent => (errno2serror .enoent, p)
      | _ => (sSuccess, .absent)

def partitionCreate (p : Partition) (fault : Option Fault) : UInt32 × Partition :=
  match p with
  | .opened _ => (sErrorBadState, p)
  | _ =>
    match fault with
    | some (.first e) => (errno2serror e, p)
    -- "w+b": a file that exists is emptied
    | _ => (sSuccess, .opened [])

/-- The second component is `*pnPartitionSize`. -/
def partitionOpen (ss : SectorSize) (p : Partition) (fault : Option Fault) :
    UInt32 × UInt32 × Partition :=
  match p with
  | .opened _ => (sErrorBadState, 0, p)
  | .absent =>
    match fault with
    | some (.first e) => (errno2serror e, 0, p)
    | _ => (sErrorItemNotFound, 0, p)
  | .closed f =>
    match fault with
    | some (.first e) => (errno2serror e, 0, p)
    -- `fseek` is not checked: the stream stays at its start
    | some (.later _ _) => (sSuccess, 0, .opened f)
    | none => (sSuccess, ftellEnd f / ss.bytes, .opened f)

def partitionClose (p : Partition) : UInt32 × Partition :=
  match p with
  | .opened f => (sSuccess, .closed f)
  | _ => (sErrorBadState, p)

/-- The second component is the workspace. -/
def partitionRead (ss : SectorSize) (p : Partition) (ws : List UInt8)
    (nSectorIndex nWorkspaceOffset : UInt32) (fault : Option Fault) : UInt32 × List UInt8 :=
  match p with
  | .opened f =>
    match fault with
    | some (.first e) => (errno2serror e, ws)
    | _ =>
      match fseekSet (nSectorIndex * ss.bytes) with
      | none => (errno2serror .einval, ws)
      | some o =>
        let d := readAt f o ss.size
        match fault with
        | some (.later e n) => (errno2serror e, writeAt 0 ws nWorkspaceOffset.toNat (d.take n))
        | _ =>
          -- `fread` has copied what there was before it reports the end of the file
          if d.length = ss.size then (sSuccess, writeAt 0 ws nWorkspaceOffset.toNat d)
          else (sErrorItemNotFound, writeAt 0 ws nWorkspaceOffset.toNat d)
  | _ => (sErrorBadState, ws)

def partitionWrite (ss : SectorSize) (p : Partition) (ws : List UInt8)
    (nSectorIndex nWorkspaceOffset : UInt32) (fault : Option Fault) : UInt32 × Partition :=
  match p with
  | .opened f =>
    match fault with
    | some (.first e) => (errno2serror e, p)
    | _ =>
      match fseekSet (nSectorIndex * ss.bytes) with
      | none => (errno2serror .einval, p)
      | some o =>
        let d := readAt ws nWorkspaceOffset.toNat ss.size
        match fault with
        | some (.later e n) => (errno2serror e, .opened (writePart f o (d.take n)))
        | _ =>
          -- past the largest file the write is cut short and fails (EFBIG)
          if o + ss.size ≤ fileLimit then (sSuccess, .opened (writeAt 0 f o d))
          else (errno2serror .other, .opened (writePart f o (d.take (fileLimit - o))))
  | _ => (sErrorBadState, p)

def partitionSetSize (ss : SectorSize) (p : Partition) (nNewSectorCount : UInt32)
    (fault : Option Fault) : UInt32 × Partition :=
  match p with
  | .opened f =>
    match fault with
    | some (.first e) => (errno2serror e, p)
    | _ =>
      let nCurrentSectorCount := ftellEnd f / ss.bytes
      if nCurrentSectorCount < nNewSectorCount then
        -- a 32-bit product, like the offsets above
        let nAddedBytesCount := (nNewSectorCount - nCurrentSectorCount) * ss.bytes
        let due := match fault with
          | some (.later e n) => some (e, n)
          | _ => none
        match fputcLoop due nAddedBytesCount.toNat f with
        | (some e, f') => (errno2serror e, .opened f')
        | (none, f') => (sSuccess, .opened f')
      else if nNewSectorCount < nCurrentSectorCount then
        match fault with
        | some (.later e _) => (errno2serror e, p)
        | _ => (sSuccess, .opened (f.take (nNewSectorCount * ss.bytes).toNat))
      else (sSuccess, p)
  | _ => (sErrorBadState, p)

def partitionSync (p : Partition) (fault : Option Fault) : UInt32 :=
  match p with
  | .opened _ =>
    match fault with
    | some (.first e) => errno2serror e
    | some (.later e _) => errno2serror e
    | none => sSuccess
  | _ => sErrorBadState

/-! ## One operation -/

inductive FileOp where
  | create
  | open
  | close
  | destroy
  | setSize (nNewSize : UInt32)
  | write (nSectorID nWorkspaceOffset : UInt32)
  | read (nSectorID nWorkspaceOffset : UInt32)
  | sync
  deriving DecidableEq, Repr

/-- What an operation leaves: `size` is what OPEN reports. -/
structure Outcome where
  nError : UInt32
  size : UInt32
  partition : Partition
  workspace : List UInt8
  deriving DecidableEq, Repr

def FileOp.perform (ss : SectorSize) (p : Partition) (ws : List UInt8) (fault : Option Fault) :
    FileOp → Outcome
  | .create => ⟨(partitionCreate p fault).1, 0, (partitionCreate p fault).2, ws⟩
  | .open =>
    let r := partitionOpen ss p fault
    ⟨r.1, r.2.1, r.2.2, ws⟩
  | .close => ⟨(partitionClose p).1, 0, (partitionClose p).2, ws⟩
  | .destroy => ⟨(partitionDestroy p fault).1, 0, (partitionDestroy p fault).2, ws⟩
  | .setSize n =>
    let r := partitionSetSize ss p n fault
    ⟨r.1, 0, r.2, ws⟩
  | .write i off =>
    let r := partitionWrite ss p ws i off fault
    ⟨r.1, 0, r.2, ws⟩
  | .read i off =>
    let r := partitionRead ss p ws i off fault
    ⟨r.1, 0, p, r.2⟩
  | .sync => ⟨partitionSync p fault, 0, p, ws⟩

/-! ## What is moved -/

/-- How many bytes `fread` or `fwrite` moves. -/
def transferred (ss : SectorSize) (p : Partition) (fault : Option Fault) : FileOp → Nat
  | .read nSectorIndex _ =>
    match p, fault with
    | .opened _, some (.first _) => 0
    | .opened f, _ =>
      match fseekSet (nSectorIndex * ss.bytes) with
      | none => 0
      | some o =>
        let d := (readAt f o ss.size).length
        match fault with
        | some (.later _ n) => min n d
        | _ => d
    | _, _ => 0
  | .write nSectorIndex _ =>
    match p, fault with
    | .opened _, some (.first _) => 0
    | .opened _, _ =>
      match fseekSet (nSectorIndex * ss.bytes) with
      | none => 0
      | some o =>
        match fault with
        | some (.later _ n) => min n ss.size
        | _ => min ss.size (fileLimit - o)
    | _, _ => 0
  | _ => 0

def FileOp.nWorkspaceOffset : FileOp → UInt32
  | .read _ off | .write _ off => off
  | _ => 0

/-- The operation keeps to a workspace of `size` bytes. -/
def FileOp.Inside (ss : SectorSize) (p : Partition) (fault : Option Fault) (size : Nat)
    (o : FileOp) : Prop :=
  transferred ss p fault o = 0 ∨ o.nWorkspaceOffset.toNat + transferred ss p fault o ≤ size

instance (ss : SectorSize) (p : Partition) (fault : Option Fault) (size : Nat) (o : FileOp) :
    Decidable (o.Inside ss p fault size) :=
  inferInstanceAs (Decidable (_ ∨ _))

theorem transferred_le (ss : SectorSize) (p : Partition) (fault : Option Fault) (o : FileOp) :
    transferred ss p fault o ≤ ss.size := by
  have hread : ∀ (f : List UInt8) i, (readAt f i ss.size).length ≤ ss.size := by
    intro f i
    rw [length_readAt]
    exact Nat.min_le_left _ _
  unfold transferred
  split
  next =>
    split
    · exact Nat.zero_le _
    · split
      · exact Nat.zero_le _
      · split
        · exact Nat.le_trans (Nat.min_le_right _ _) (hread _ _)
        · exact hread _ _
    · exact Nat.zero_le _
  next =>
    split
    · exact Nat.zero_le _
    · split
      · exact Nat.zero_le _
      · split
        · exact Nat.min_le_right _ _
        · exact Nat.min_le_left _ _
    · exact Nat.zero_le _
  next => exact Nat.zero_le _

end Omap4Hal.Security

import Omap4Hal.Lib.Loop
import Omap4Hal.Security.PartitionFile

/- The instruction loop of the secure-storage daemon: `runSession` of
   `delegation_client.c`, from the buffer that the service has sent to the
   administrative data that goes back to it.

   The loop reads the buffer word by word. A word whose low nibble is zero is an
   instruction of its own; any other is an operation on the partition in the high
   nibble, followed by the operation's parameters, and is executed only while the
   partition has no error. The parameters are read inside that check, so they are
   left in the buffer when the operation is skipped. One variable `nError` lives
   through the whole batch, and the opcodes that the inner switch does not know
   leave it as it is.

   READ and WRITE take an offset in the workspace, which is not checked, and the
   instructions and the administrative data lie in front of the workspace. `wildBatch` is
   the batch with any effect of an access that leaves it.

   `instruction` and `encoded` read the buffer the way it is encoded, whatever the
   operations return. -/
namespace Omap4Hal.Security
open Lib
open Function (update)

/-! ## Instruction words -/

def instructionShutdown : UInt32 := 0xF0
def instructionNotify : UInt32 := 0xE0
def instructionPartitionCreate : UInt32 := 0x01
def instructionPartitionOpen : UInt32 := 0x02
def instructionPartitionRead : UInt32 := 0x03
def instructionPartitionWrite : UInt32 := 0x04
def instructionPartitionSetSize : UInt32 := 0x05
def instructionPartitionSync : UInt32 := 0x06
def instructionPartitionClose : UInt32 := 0x07
def instructionPartitionDestroy : UInt32 := 0x08

/-- `sizeof(sInstructions)`. -/
def instructionsBufferSize : Nat := 400

/-- The bytes the loop reads. A size larger than the buffer counts as 0. -/
def instructionBytes (sInstructions : List UInt8) (size : UInt32) : List UInt8 :=
  if size.toNat > instructionsBufferSize then [] else sInstructions.take size.toNat

/-- A little-endian word off the front. -/
def readWord : List UInt8 → Option (UInt32 × List UInt8)
  | b₀ :: b₁ :: b₂ :: b₃ :: rest =>
    some (b₀.toUInt32 ||| (b₁.toUInt32 <<< 8) ||| (b₂.toUInt32 <<< 16) ||| (b₃.toUInt32 <<< 24),
      rest)
  | _ => none

/-- Low nibble of an instruction word. -/
def opcode (nInstructionID : UInt32) : UInt32 := nInstructionID &&& 0x0F

def partitionID (nInstructionID : UInt32) : Nat := ((nInstructionID &&& 0xF0) >>> 4).toNat

/-- The parameters of NOTIFY: type, size, message, and what follows the message once the
index is aligned on 4 bytes. -/
def parseNotify (r : List UInt8) : Option (UInt32 × List UInt8 × List UInt8) :=
  match readWord r with
  | none => none
  | some (nMessageType, r₁) =>
    match readWord r₁ with
    | none => none
    | some (nMessageSize, r₂) =>
      -- `wchar_t pMessage[100]`, the last character kept free
      if nMessageSize.toNat > 99 * 4 then none
      else if r₂.length < nMessageSize.toNat then none
      else some (nMessageType, r₂.take nMessageSize.toNat,
        r₂.drop ((nMessageSize.toNat + 3) / 4 * 4))

/-- What follows the word of an operation: its parameters, too few bytes, or an
opcode that the switch does not have. -/
inductive Parsed where
  | op (o : FileOp) (params rest : List UInt8)
  | truncated
  | unknown
  deriving DecidableEq, Repr

def parseReadWrite (o : UInt32 → UInt32 → FileOp) (r : List UInt8) : Parsed :=
  match readWord r with
  | none => .truncated
  | some (nSectorID, r₁) =>
    match readWord r₁ with
    | none => .truncated
    | some (nWorkspaceOffset, r₂) => .op (o nSectorID nWorkspaceOffset) (r.take 8) r₂

def parseSetSize (r : List UInt8) : Parsed :=
  match readWord r with
  | none => .truncated
  | some (nNewSize, r₁) => .op (.setSize nNewSize) (r.take 4) r₁

def parseOperation (code : UInt32) (r : List UInt8) : Parsed :=
  if code = instructionPartitionCreate then .op .create [] r
  else if code = instructionPartitionOpen then .op .open [] r
  else if code = instructionPartitionRead then parseReadWrite .read r
  else if code = instructionPartitionWrite then parseReadWrite .write r
  else if code = instructionPartitionSync then .op .sync [] r
  else if code = instructionPartitionSetSize then parseSetSize r
  else if code = instructionPartitionClose then .op .close [] r
  else if code = instructionPartitionDestroy then .op .destroy [] r
  else .unknown

/-! ## The loop -/

/-- An instruction as the loop splits it off the buffer. -/
structure Instruction where
  nInstructionID : UInt32
  params : List UInt8
  deriving DecidableEq, Repr

/-- An operation that was executed, and its result. -/
structure Executed where
  partition : Nat
  op : FileOp
  nError : UInt32
  deriving DecidableEq, Repr

/-- The loop's variables, the administrative data, the partitions and the
workspace, with a record of what has been done. -/
structure Session where
  rest : List UInt8
  nError : UInt32
  nSyncExecuted : UInt32
  nPartitionErrorStates : Nat → UInt32
  nPartitionOpenSizes : Nat → UInt32
  partitions : Nat → Partition
  workspace : List UInt8
  exited : Bool
  notified : List (UInt32 × List UInt8)
  split : List Instruction
  executed : List Executed

/-- Execute an operation on a partition. -/
def Session.execute (ss : SectorSize) (faults : Nat → Option Fault) (s : Session) (p : Nat)
    (o : FileOp) : Session :=
  let r := o.perform ss (s.partitions p) s.workspace (faults s.executed.length)
  { s with
    nError := r.nError
    partitions := update s.partitions p r.partition
    workspace := r.workspace
    nPartitionOpenSizes :=
      if o = .open ∧ r.nError = sSuccess then update s.nPartitionOpenSizes p r.size
      else s.nPartitionOpenSizes
    nSyncExecuted :=
      if o = .sync ∧ r.nError = sSuccess then s.nSyncExecuted + 1 else s.nSyncExecuted
    nPartitionErrorStates := update s.nPartitionErrorStates p r.nError
    executed := s.executed ++ [⟨p, o, r.nError⟩] }

/-- Note the instruction and go on behind it. -/
def Session.advance (s : Session) (id : UInt32) (params rest : List UInt8) : Session :=
  { s with rest := rest, split := s.split ++ [⟨id, params⟩] }

/-- "Partition-independent instruction". -/
def genericInstruction (s : Session) (id : UInt32) (r : List UInt8) : Flow Session :=
  if id = instructionShutdown then .stop { s.advance id [] r with exited := true }
  else if id = instructionNotify then
    match parseNotify r with
    | none => .stop (s.advance id [] r)
    | some (nMessageType, message, r') =>
      .next { s.advance id (r.take (r.length - r'.length)) r' with
        notified := s.notified ++ [(nMessageType, message)] }
  else .next { s.advance id [] r with nError := sErrorBadParameters }

/-- "Execute the instruction only if there is currently no error on the partition". -/
def partitionInstruction (ss : SectorSize) (faults : Nat → Option Fault) (s : Session)
    (id : UInt32) (r : List UInt8) : Flow Session :=
  let p := partitionID id
  if s.nPartitionErrorStates p = sSuccess then
    match parseOperation (opcode id) r with
    | .truncated => .stop (s.advance id [] r)
    -- the switch has no default: the error state takes what `nError` happens to be
    | .unknown =>
      .next { s.advance id [] r with
        nPartitionErrorStates := update s.nPartitionErrorStates p s.nError }
    | .op o params r' => .next ((s.advance id params r').execute ss faults p o)
  -- skipped: the parameters are still in `r`
  else .next (s.advance id [] r)

/-- One pass of the loop over the instructions. -/
def pass (ss : SectorSize) (faults : Nat → Option Fault) (s : Session) : Flow Session :=
  match readWord s.rest with
  | none => .stop s
  | some (id, r) =>
    if opcode id = 0 then genericInstruction s id r else partitionInstruction ss faults s id r

/-- The partitions and the workspace before the batch. -/
structure Storage where
  partitions : Nat → Partition
  workspace : List UInt8

/-- "Reset the operation results". -/
def Session.start (w : Storage) (bytes : List UInt8) : Session where
  rest := bytes
  nError := sSuccess
  nSyncExecuted := 0
  nPartitionErrorStates := fun _ => sSuccess
  nPartitionOpenSizes := fun _ => 0
  partitions := w.partitions
  workspace := w.workspace
  exited := false
  notified := []
  split := []
  executed := []

/-- The batch of instructions in a buffer. `faults n` is what the file system does to
the `n`-th operation. -/
def batch (ss : SectorSize) (faults : Nat → Option Fault) (w : Storage) (bytes : List UInt8) :
    Option Session :=
  loop (pass ss faults) (bytes.length + 1) (Session.start w bytes)

/-! ## Accesses outside of the workspace -/

/-- The operation that the next pass executes. -/
def Session.next (s : Session) : Option (Nat × FileOp) :=
  match readWord s.rest with
  | none => none
  | some (id, r) =>
    if s.nPartitionErrorStates (partitionID id) = sSuccess then
      match parseOperation (opcode id) r with
      | .op o _ _ => some (partitionID id, o)
      | _ => none
    else none

/-- If the next pass executes an operation, it keeps to a workspace of `size` bytes. -/
def AccessInside (ss : SectorSize) (faults : Nat → Option Fault) (size : Nat) (s : Session) :
    Prop :=
  ∀ x ∈ s.next, x.2.Inside ss (s.partitions x.1) (faults s.executed.length) size

instance (ss : SectorSize) (faults : Nat → Option Fault) (size : Nat) (s : Session) :
    Decidable (AccessInside ss faults size s) :=
  inferInstanceAs (Decidable (∀ x ∈ s.next, _))

/-- Memory is no longer what it was. What has been done stays done. -/
def Session.overwritten (s : Session) (wild : Session → Session) : Session :=
  { wild s with
    exited := s.exited
    notified := s.notified
    split := s.split
    executed := s.executed }

/-- One pass, which leaves memory to `wild` if it reads or writes outside of the
workspace. -/
def wildPass (ss : SectorSize) (faults : Nat → Option Fault) (size : Nat)
    (wild : Session → Session) (s : Session) : Flow Session :=
  match pass ss faults s with
  | .next t => .next (if AccessInside ss faults size s then t else t.overwritten wild)
  | .stop t => .stop t

/-- The batch in a workspace that ends where that of `w` does. -/
def wildBatch (ss : SectorSize) (faults : Nat → Option Fault) (wild : Session → Session)
    (w : Storage) (bytes : List UInt8) : Option Session :=
  loop (wildPass ss faults w.workspace.length wild) (bytes.length + 1) (Session.start w bytes)

/-! ## The encoding -/

/-- The first instruction of a buffer, and the buffer behind it unless the loop ends
with it. -/
def instruction (bytes : List UInt8) : Option (Instruction × Option (List UInt8)) :=
  match readWord bytes with
  | none => none
  | some (id, r) =>
    if opcode id = 0 then
      if id = instructionShutdown then some (⟨id, []⟩, none)
      else if id = instructionNotify then
        match parseNotify r with
        | none => some (⟨id, []⟩, none)
        | some (_, _, r') => some (⟨id, r.take (r.length - r'.length)⟩, some r')
      else some (⟨id, []⟩, some r)
    else
      match parseOperation (opcode id) r with
      | .truncated => some (⟨id, []⟩, none)
      | .unknown => some (⟨id, []⟩, some r)
      | .op _ params r' => some (⟨id, params⟩, some r')

/-- The instructions of a buffer, given as many steps as it has bytes. -/
def instructions : Nat → List UInt8 → List Instruction
  | 0, _ => []
  | n + 1, bytes =>
    match instruction bytes with
    | none => []
    | some (x, none) => [x]
    | some (x, some r) => x :: instructions n r

def encoded (bytes : List UInt8) : List Instruction := instructions bytes.length bytes

/-- The operation that an instruction stands for. -/
def Instruction.operation (x : Instruction) : Option (Nat × FileOp) :=
  if opcode x.nInstructionID = 0 then none
  else
    match parseOperation (opcode x.nInstructionID) x.params with
    | .op o _ _ => some (partitionID x.nInstructionID, o)
    | _ => none

/-! ## Reading words -/

variable {b r params r' : List UInt8} {code : UInt32} {x : Instruction}

theorem readWord_eq_some {w : UInt32} (h : readWord b = some (w, r)) :
    ∃ b₀ b₁ b₂ b₃, b = b₀ :: b₁ :: b₂ :: b₃ :: r ∧
      ∀ r', readWord (b₀ :: b₁ :: b₂ :: b₃ :: r') = some (w, r') := by
  rw [readWord.eq_def] at h
  split at h
  next b₀ b₁ b₂ b₃ rest =>
    cases h
    exact ⟨b₀, b₁, b₂, b₃, rfl, fun _ => rfl⟩
  next => cases h

theorem readWord_length {w : UInt32} (h : readWord b = some (w, r)) :
    b.length = r.length + 4 := by
  obtain ⟨b₀, b₁, b₂, b₃, rfl, -⟩ := readWord_eq_some h
  rfl

theorem readWord_eq_none : readWord b = none ↔ b.length < 4 := by
  rw [readWord.eq_def]
  split
  next => simp
  next h =>
    simp only [true_iff]
    match b, h with
    | [], _ => decide
    | [_], _ => simp
    | [_, _], _ => simp
    | [_, _, _], _ => simp
    | b₀ :: b₁ :: b₂ :: b₃ :: rest, h => exact absurd rfl (h b₀ b₁ b₂ b₃ rest)

/-! ## Parsing operations -/

/-- The opcodes whose word is followed by parameters. -/
def HasParams (code : UInt32) : Prop :=
  code = instructionPartitionRead ∨ code = instructionPartitionWrite ∨
    code = instructionPartitionSetSize

/-- An operation that is parsed has all its parameters, and these alone say which
operation it is. -/
structure Parses (parse : List UInt8 → Parsed) (r : List UInt8) (o : FileOp)
    (params r' : List UInt8) : Prop where
  eq : r = params ++ r'
  self : parse params = .op o params []

theorem parseReadWrite_parses {mk : UInt32 → UInt32 → FileOp} {o : FileOp}
    (h : parseReadWrite mk r = .op o params r') :
    params ≠ [] ∧ Parses (parseReadWrite mk) r o params r' := by
  rw [parseReadWrite] at h
  split at h
  next => cases h
  next i r₁ h₁ =>
    split at h
    next => cases h
    next off r₂ h₂ =>
      simp only [Parsed.op.injEq] at h
      obtain ⟨b₀, b₁, b₂, b₃, rfl, hi⟩ := readWord_eq_some h₁
      obtain ⟨c₀, c₁, c₂, c₃, rfl, hoff⟩ := readWord_eq_some h₂
      obtain ⟨rfl, rfl, rfl⟩ := h
      refine ⟨by simp, rfl, ?_⟩
      simp only [List.take_succ_cons, List.take_zero, parseReadWrite, hi, hoff]

theorem parseSetSize_parses {o : FileOp} (h : parseSetSize r = .op o params r') :
    params ≠ [] ∧ Parses parseSetSize r o params r' := by
  rw [parseSetSize] at h
  split at h
  next => cases h
  next n r₁ h₁ =>
    simp only [Parsed.op.injEq] at h
    obtain ⟨b₀, b₁, b₂, b₃, rfl, hn⟩ := readWord_eq_some h₁
    obtain ⟨rfl, rfl, rfl⟩ := h
    refine ⟨by simp, rfl, ?_⟩
    simp only [List.take_succ_cons, List.take_zero, parseSetSize, hn]

theorem parseOperation_plain (h : ¬ HasParams code) :
    (∃ o, ∀ r, parseOperation code r = .op o [] r) ∨
      ∀ r, parseOperation code r = .unknown := by
  simp only [HasParams, not_or] at h
  obtain ⟨hread, hwrite, hsize⟩ := h
  unfold parseOperation
  simp only [hread, hwrite, hsize, if_false]
  split
  · exact Or.inl ⟨_, fun _ => rfl⟩
  split
  · exact Or.inl ⟨_, fun _ => rfl⟩
  split
  · exact Or.inl ⟨_, fun _ => rfl⟩
  split
  · exact Or.inl ⟨_, fun _ => rfl⟩
  split
  · exact Or.inl ⟨_, fun _ => rfl⟩
  exact Or.inr fun _ => rfl

theorem parseOperation_read (r : List UInt8) :
    parseOperation instructionPartitionRead r = parseReadWrite .read r := rfl

theorem parseOperation_write (r : List UInt8) :
    parseOperation instructionPartitionWrite r = parseReadWrite .write r := rfl

theorem parseOperation_setSize (r : List UInt8) :
    parseOperation instructionPartitionSetSize r = parseSetSize r := rfl

theorem parseReadWrite_known (mk : UInt32 → UInt32 → FileOp) (r : List UInt8) :
    parseReadWrite mk r ≠ .unknown := by
  rw [parseReadWrite]
  split
  · simp
  · split <;> simp

theorem parseOperation_known (h : HasParams code) (r : List UInt8) :
    parseOperation code r ≠ .unknown := by
  rcases h with rfl | rfl | rfl
  · exact parseReadWrite_known .read r
  · exact parseReadWrite_known .write r
  · rw [parseOperation_setSize, parseSetSize]
    split <;> simp

theorem parseOperation_short (h : HasParams code) (hr : r.length < 4) :
    parseOperation code r = .truncated := by
  have hnone := readWord_eq_none.mpr hr
  rcases h with rfl | rfl | rfl
  · rw [parseOperation_read, parseReadWrite, hnone]
  · rw [parseOperation_write, parseReadWrite, hnone]
  · rw [parseOperation_setSize, parseSetSize, hnone]

theorem parseOperation_truncated (h : parseOperation code r = .truncated) : HasParams code := by
  by_contra hp
  rcases parseOperation_plain hp with ⟨o, hplain⟩ | hplain
  · rw [hplain] at h
    cases h
  · rw [hplain] at h
    cases h

theorem parseOperation_unknown (h : parseOperation code r = .unknown) (r' : List UInt8) :
    parseOperation code r' = .unknown := by
  have hp : ¬ HasParams code := fun hp => parseOperation_known hp r h
  rcases parseOperation_plain hp with ⟨o, hplain⟩ | hplain
  · rw [hplain] at h
    cases h
  · exact hplain r'

theorem parseOperation_parses {o : FileOp} (h : parseOperation code r = .op o params r') :
    (HasParams code → params ≠ []) ∧ Parses (parseOperation code) r o params r' := by
  by_cases hp : HasParams code
  · rcases hp with rfl | rfl | rfl
    · obtain ⟨hne, hparse⟩ := parseReadWrite_parses h
      exact ⟨fun _ => hne, hparse⟩
    · obtain ⟨hne, hparse⟩ := parseReadWrite_parses h
      exact ⟨fun _ => hne, hparse⟩
    · obtain ⟨hne, hparse⟩ := parseSetSize_parses h
      exact ⟨fun _ => hne, hparse⟩
  · rcases parseOperation_plain hp with ⟨o', hplain⟩ | hplain
    · rw [hplain, Parsed.op.injEq] at h
      obtain ⟨rfl, rfl, rfl⟩ := h
      exact ⟨fun hp' => absurd hp' hp, rfl, hplain []⟩
    · rw [hplain] at h
      cases h

/-! ## Instructions as encoded -/

theorem parseNotify_length {m : List UInt8} {ty : UInt32} (h : parseNotify r = some (ty, m, r')) :
    r'.length ≤ r.length := by
  rw [parseNotify] at h
  split at h
  next => cases h
  next t r₁ h₁ =>
    split at h
    next => cases h
    next n r₂ h₂ =>
      have hl₁ := readWord_length h₁
      have hl₂ := readWord_length h₂
      split at h
      next => cases h
      next =>
        split at h
        next => cases h
        next =>
          simp only [Option.some.injEq, Prod.mk.injEq] at h
          rw [← h.2.2, List.length_drop]
          omega

theorem instruction_length (h : instruction b = some (x, some r)) : r.length + 4 ≤ b.length := by
  rw [instruction] at h
  split at h
  next => cases h
  next id r₁ h₁ =>
    have hl := readWord_length h₁
    split at h
    · split at h
      · simp at h
      split at h
      · split at h
        next => simp at h
        next ty m r' hn =>
          have hn := parseNotify_length hn
          simp only [Option.some.injEq, Prod.mk.injEq] at h
          rw [← h.2]
          omega
      · simp only [Option.some.injEq, Prod.mk.injEq] at h
        rw [← h.2]
        omega
    · split at h
      next => simp at h
      next =>
        simp only [Option.some.injEq, Prod.mk.injEq] at h
        rw [← h.2]
        omega
      next o params r' hp =>
        obtain ⟨-, hparse⟩ := parseOperation_parses hp
        have heq := congrArg List.length hparse.eq
        simp only [Option.some.injEq, Prod.mk.injEq] at h
        rw [List.length_append] at heq
        rw [← h.2]
        omega

theorem instruction_operation {id : UInt32} (hword : readWord b = some (id, r))
    (hop : opcode id ≠ 0) :
    instruction b = match parseOperation (opcode id) r with
      | .truncated => some (⟨id, []⟩, none)
      | .unknown => some (⟨id, []⟩, some r)
      | .op _ params r' => some (⟨id, params⟩, some r') := by
  rw [instruction, hword]
  exact if_neg hop

theorem instruction_short (h : b.length < 4) : instruction b = none := by
  rw [instruction, readWord_eq_none.mpr h]

theorem instructions_fuel {n m : Nat} (hn : b.length ≤ n) (hm : b.length ≤ m) :
    instructions n b = instructions m b := by
  induction n generalizing m b with
  | zero =>
    cases m with
    | zero => rfl
    | succ m => rw [instructions, instructions, instruction_short (by omega)]
  | succ n ih =>
    cases m with
    | zero => rw [instructions, instructions, instruction_short (by omega)]
    | succ m =>
      rw [instructions, instructions]
      split
      next => rfl
      next => rfl
      next x r h =>
        have hlen := instruction_length h
        exact congrArg (x :: ·) (ih (by omega) (by omega))

theorem encoded_succ (b : List UInt8) : encoded b = instructions (b.length + 1) b :=
  instructions_fuel (Nat.le_refl _) (Nat.le_succ _)

theorem encoded_none (h : instruction b = none) : encoded b = [] := by
  rw [encoded_succ, instructions, h]

theorem encoded_end (h : instruction b = some (x, none)) :
    encoded b = [x] := by
  rw [encoded_succ, instructions, h]

theorem encoded_cons (h : instruction b = some (x, some r)) : encoded b = x :: encoded r := by
  have hlen := instruction_length h
  rw [encoded_succ, instructions, h]
  exact congrArg (x :: ·) (instructions_fuel (by omega) (Nat.le_refl _))

theorem encoded_short (h : b.length < 4) : encoded b = [] := by
  exact encoded_none (instruction_short h)

/-! ## One pass -/

/-- The operations executed so far and the error states are as before. -/
def SameWork (s t : Session) : Prop :=
  t.executed = s.executed ∧ t.nPartitionErrorStates = s.nPartitionErrorStates

/-- What a pass can do. -/
inductive Passes (ss : SectorSize) (faults : Nat → Option Fault) (s : Session) :
    Flow Session → Prop where
  | done (h : s.rest.length < 4) : Passes ss faults s (.stop s)
  | ends {x : Instruction} {t : Session} (h : instruction s.rest = some (x, none))
      (hx : x.operation = none) (hsplit : t.split = s.split ++ [x]) (hwork : SameWork s t) :
      Passes ss faults s (.stop t)
  | generic {x : Instruction} {r : List UInt8} {t : Session}
      (h : instruction s.rest = some (x, some r)) (hx : x.operation = none) (hrest : t.rest = r)
      (hsplit : t.split = s.split ++ [x]) (hwork : SameWork s t) : Passes ss faults s (.next t)
  | skipped {id : UInt32} {r : List UInt8} (hword : readWord s.rest = some (id, r))
      (hop : opcode id ≠ 0) (herr : s.nPartitionErrorStates (partitionID id) ≠ sSuccess) :
      Passes ss faults s (.next (s.advance id [] r))
  | unknown {id : UInt32} {r : List UInt8} {t : Session} (hword : readWord s.rest = some (id, r))
      (h : instruction s.rest = some (⟨id, []⟩, some r))
      (hun : parseOperation (opcode id) r = .unknown)
      (hx : (Instruction.mk id []).operation = none) (hop : opcode id ≠ 0)
      (hok : s.nPartitionErrorStates (partitionID id) = sSuccess) (hrest : t.rest = r)
      (hsplit : t.split = s.split ++ [⟨id, []⟩]) (hexec : t.executed = s.executed)
      (hstates : t.nPartitionErrorStates =
        update s.nPartitionErrorStates (partitionID id) s.nError) :
      Passes ss faults s (.next t)
  | executed {id e : UInt32} {o : FileOp} {params r : List UInt8} {t : Session}
      (h : instruction s.rest = some (⟨id, params⟩, some r))
      (hx : (Instruction.mk id params).operation = some (partitionID id, o))
      (hok : s.nPartitionErrorStates (partitionID id) = sSuccess) (hrest : t.rest = r)
      (hsplit : t.split = s.split ++ [⟨id, params⟩])
      (hexec : t.executed = s.executed ++ [⟨partitionID id, o, e⟩])
      (hstates : t.nPartitionErrorStates =
        update s.nPartitionErrorStates (partitionID id) e) :
      Passes ss faults s (.next t)

theorem pass_passes (ss : SectorSize) (faults : Nat → Option Fault) (s : Session) :
    Passes ss faults s (pass ss faults s) := by
  rw [pass]
  split
  next h => exact .done (readWord_eq_none.mp h)
  next id r h =>
    split
    next hop =>
      have hx : ∀ params, (Instruction.mk id params).operation = none := by
        intro params
        rw [Instruction.operation, if_pos hop]
      -- the encoding has the same three cases
      have hi : instruction s.rest = if id = instructionShutdown then some (⟨id, []⟩, none)
          else if id = instructionNotify then
            match parseNotify r with
            | none => some (⟨id, []⟩, none)
            | some (_, _, r') => some (⟨id, r.take (r.length - r'.length)⟩, some r')
          else some (⟨id, []⟩, some r) := by
        rw [instruction, h]
        exact if_pos hop
      rw [genericInstruction]
      split
      next hid => exact .ends (hi.trans (if_pos hid)) (hx []) rfl ⟨rfl, rfl⟩
      next hid =>
        rw [if_neg hid] at hi
        split
        next hn =>
          rw [if_pos hn] at hi
          split
          next hp => exact .ends (by rw [hi, hp]) (hx []) rfl ⟨rfl, rfl⟩
          next ty m r' hp =>
            have hi' : instruction s.rest =
                some (⟨id, r.take (r.length - r'.length)⟩, some r') := by rw [hi, hp]
            exact .generic hi' (hx _) rfl rfl ⟨rfl, rfl⟩
        next hn => exact .generic (hi.trans (if_neg hn)) (hx []) rfl rfl ⟨rfl, rfl⟩
    next hop =>
      have hi := instruction_operation h hop
      simp only [partitionInstruction]
      split
      next hok =>
        split
        next hp =>
          have hshort : parseOperation (opcode id) [] = .truncated :=
            parseOperation_short (parseOperation_truncated hp) (by decide)
          refine .ends (by rw [hi, hp]) ?_ rfl ⟨rfl, rfl⟩
          simp only [Instruction.operation, if_neg hop, hshort]
        next hp =>
          rw [hp] at hi
          refine .unknown h hi hp ?_ hop hok rfl rfl rfl rfl
          simp only [Instruction.operation, if_neg hop, parseOperation_unknown hp []]
        next o params r' hp =>
          rw [hp] at hi
          refine .executed hi ?_ hok rfl rfl rfl rfl
          simp only [Instruction.operation, if_neg hop, (parseOperation_parses hp).2.self]
      next herr => exact .skipped h hop herr

variable {ss : SectorSize} {faults : Nat → Option Fault}

theorem pass_rest_lt {s s' : Session} (h : pass ss faults s = .next s') :
    s'.rest.length < s.rest.length := by
  have hp := pass_passes ss faults s
  rw [h] at hp
  cases hp with
  | generic hi _ hrest _ _ =>
    have hl := instruction_length hi
    rw [hrest]
    omega
  | @skipped id r hword _ _ =>
    have hl := readWord_length hword
    show r.length < s.rest.length
    omega
  | unknown hword _ _ _ _ _ hrest _ _ _ =>
    have hl := readWord_length hword
    rw [hrest]
    omega
  | executed hi _ _ hrest _ _ _ =>
    have hl := instruction_length hi
    rw [hrest]
    omega

theorem batch_returns (ss : SectorSize) (faults : Nat → Option Fault) (w : Storage)
    (b : List UInt8) : ∃ t, batch ss faults w b = some t :=
  loop_terminates (fun _ _ => pass_rest_lt) (Nat.lt_succ_self _)

/-! ## The loop outside of the workspace -/

variable {size : Nat}

theorem wildPass_next {s t : Session} (h : pass ss faults s = .next t)
    (wild : Session → Session) :
    wildPass ss faults size wild s =
      .next (if AccessInside ss faults size s then t else t.overwritten wild) := by
  rw [wildPass, h]

theorem wildPass_stop {s t : Session} (h : pass ss faults s = .stop t)
    (wild : Session → Session) : wildPass ss faults size wild s = .stop t := by
  rw [wildPass, h]

theorem wildPass_inside {s : Session} (h : AccessInside ss faults size s)
    (wild : Session → Session) : wildPass ss faults size wild s = pass ss faults s := by
  cases hb : pass ss faults s with
  | next t => rw [wildPass_next hb, if_pos h]
  | stop t => exact wildPass_stop hb wild

theorem wildPass_id (s : Session) : wildPass ss faults size id s = pass ss faults s := by
  cases hb : pass ss faults s with
  | next t => rw [wildPass_next hb, Session.overwritten, id, ite_self]
  | stop t => exact wildPass_stop hb id

theorem wildBatch_eq {w : Storage}
    (h : Visits (pass ss faults) (AccessInside ss faults w.workspace.length) (b.length + 1)
      (Session.start w b)) (wild : Session → Session) :
    wildBatch ss faults wild w b = batch ss faults w b :=
  h.loop_congr fun _ hin => wildPass_inside hin wild

theorem wildBatch_id (w : Storage) : wildBatch ss faults id w b = batch ss faults w b := by
  rw [wildBatch, funext wildPass_id, batch]

theorem pass_next {s : Session} {x : Nat × FileOp} (h : s.next = some x) :
    ∃ t, pass ss faults s = .next t := by
  rw [Session.next] at h
  split at h
  next => cases h
  next id r hword =>
    split at h
    next hok =>
      split at h
      next o params r' hparse =>
        have hop : opcode id ≠ 0 := by
          intro hop
          rw [hop] at hparse
          cases hparse
        have hb : pass ss faults s =
            .next ((s.advance id params r').execute ss faults (partitionID id) o) := by
          simp only [pass, hword, if_neg hop, partitionInstruction, if_pos hok, hparse]
        exact ⟨_, hb⟩
      next => cases h
    next => cases h

/-- If the loop ends with `Q` whatever an access outside of the workspace does to memory, then
there is no such access, provided that something can be done which breaks `Q`. -/
theorem visits_inside {Q : Session → Prop} {n : Nat} {s : Session}
    (hbreak : ∀ n (t : Session), ¬ ∀ wild, ∃ u,
      loop (wildPass ss faults size wild) n (t.overwritten wild) = some u ∧ Q u)
    (h : ∀ wild, ∃ u, loop (wildPass ss faults size wild) n s = some u ∧ Q u) :
    Visits (pass ss faults) (AccessInside ss faults size) n s := by
  induction n generalizing s with
  | zero => trivial
  | succ n ih =>
    by_cases hin : AccessInside ss faults size s
    · refine ⟨hin, ?_⟩
      intro s' hb
      apply ih
      intro wild
      rw [← loop_next ((wildPass_inside hin wild).trans hb)]
      exact h wild
    · obtain ⟨x, hx, -⟩ : ∃ x ∈ s.next, _ := by
        simpa only [AccessInside, not_forall, exists_prop] using hin
      obtain ⟨t, hb⟩ : ∃ t, pass ss faults s = .next t := pass_next hx
      refine absurd ?_ (hbreak n t)
      intro wild
      rw [← loop_next ((wildPass_next hb wild).trans (congrArg _ (if_neg hin)))]
      exact h wild

/-- No partition has a file. -/
def noStorage : Storage := ⟨fun _ => .absent, []⟩

end Omap4Hal.Security

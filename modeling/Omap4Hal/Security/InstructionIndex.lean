import Omap4Hal.Lib.WordBits
import Omap4Hal.Security.Delegation

/- The instruction loop of `runSession` once more, with the index that it moves through
   the exchange buffer, and with what it touches: the words it reads, what it copies into
   `pMessage`, and the bytes of the workspace that READ and WRITE hand to the file.

   `pInstruction` is set at the start of a pass and the fields of the instruction are read
   from there. Every read is behind a check of the index, a 32-bit sum, against the
   size. There is no check of the workspace offset.

   `indexPass_same`: the passes are those of `pass`, which works on the bytes behind
   the index. The fields `rest` and `split` of the session are not used here. -/
namespace Omap4Hal.Security
open Lib

/-! ## The loop with its index -/

/-- Bytes that the loop touches: of the instruction buffer and of the workspace from an
offset on, of the message from its start. -/
inductive Touch where
  | instruction (off len : Nat)
  | message (len : Nat)
  | workspace (off : UInt32) (len : Nat)
  deriving DecidableEq, Repr

/-- `sInstructions` -/
structure ExchangeBuffer where
  bytes : List UInt8
  length : bytes.length = instructionsBufferSize

def ExchangeBuffer.wordAt (b : ExchangeBuffer) (i : Nat) : UInt32 :=
  match readWord (b.bytes.drop i) with
  | some (w, _) => w
  | none => 0

structure Indexed where
  nInstructionsIndex : UInt32
  session : Session
  touched : List Touch

/-- The index moves on, over bytes that have been read. -/
def Indexed.read (s : Indexed) (n : UInt32) (touched : List Touch) : Indexed :=
  { s with nInstructionsIndex := s.nInstructionsIndex + n, touched := s.touched ++ touched }

/-- `g_pWorkspaceBuffer + nWorkspaceOffset`, for READ and WRITE. -/
def workspaceTouched (ss : SectorSize) (p : Partition) (fault : Option Fault) (o : FileOp) :
    List Touch :=
  match o with
  | .read _ off => [.workspace off (transferred ss p fault o)]
  | .write _ off => [.workspace off (transferred ss p fault o)]
  | _ => []

section
variable (ss : SectorSize) (faults : Nat → Option Fault) (b : ExchangeBuffer)
  (nInstructionsBufferSize : UInt32)

def Indexed.execute (s : Indexed) (p : Nat) (o : FileOp) : Indexed :=
  { s with
    session := s.session.execute ss faults p o
    touched := s.touched ++
      workspaceTouched ss (s.session.partitions p) (faults s.session.executed.length) o }

/-- "Partition-independent instruction". -/
def indexGeneric (s : Indexed) (pInstruction : Nat) (id : UInt32) : Flow Indexed :=
  if id = instructionShutdown then .stop { s with session := { s.session with exited := true } }
  else if id = instructionNotify then
    if s.nInstructionsIndex + 8 ≤ nInstructionsBufferSize then
      let nMessageType := b.wordAt (pInstruction + 4)
      let nMessageSize := b.wordAt (pInstruction + 8)
      let s := s.read 8 [.instruction (pInstruction + 4) 4, .instruction (pInstruction + 8) 4]
      if nMessageSize > 99 * 4 then .stop s
      else if s.nInstructionsIndex + nMessageSize ≤ nInstructionsBufferSize then
        let message := (b.bytes.drop (pInstruction + 12)).take nMessageSize.toNat
        let s := s.read nMessageSize
          [.instruction (pInstruction + 12) nMessageSize.toNat, .message nMessageSize.toNat]
        .next { s with
          nInstructionsIndex := (s.nInstructionsIndex + 3) &&& ~~~3
          session := { s.session with
            notified := s.session.notified ++ [(nMessageType, message)] } }
      else .stop s
    else .stop s
  else .next { s with session := { s.session with nError := sErrorBadParameters } }

def indexReadWrite (s : Indexed) (pInstruction p : Nat) (o : UInt32 → UInt32 → FileOp) :
    Flow Indexed :=
  if s.nInstructionsIndex + 8 ≤ nInstructionsBufferSize then
    let nSectorID := b.wordAt (pInstruction + 4)
    let nWorkspaceOffset := b.wordAt (pInstruction + 8)
    let s := s.read 8 [.instruction (pInstruction + 4) 4, .instruction (pInstruction + 8) 4]
    .next (s.execute ss faults p (o nSectorID nWorkspaceOffset))
  else .stop s

def indexSetSize (s : Indexed) (pInstruction p : Nat) : Flow Indexed :=
  if s.nInstructionsIndex + 4 ≤ nInstructionsBufferSize then
    let nNewSize := b.wordAt (pInstruction + 4)
    let s := s.read 4 [.instruction (pInstruction + 4) 4]
    .next (s.execute ss faults p (.setSize nNewSize))
  else .stop s

def indexOperation (s : Indexed) (pInstruction p : Nat) (code : UInt32) : Flow Indexed :=
  if code = instructionPartitionCreate then .next (s.execute ss faults p .create)
  else if code = instructionPartitionOpen then .next (s.execute ss faults p .open)
  else if code = instructionPartitionRead then
    indexReadWrite ss faults b nInstructionsBufferSize s pInstruction p .read
  else if code = instructionPartitionWrite then
    indexReadWrite ss faults b nInstructionsBufferSize s pInstruction p .write
  else if code = instructionPartitionSync then .next (s.execute ss faults p .sync)
  else if code = instructionPartitionSetSize then
    indexSetSize ss faults b nInstructionsBufferSize s pInstruction p
  else if code = instructionPartitionClose then .next (s.execute ss faults p .close)
  else if code = instructionPartitionDestroy then .next (s.execute ss faults p .destroy)
  else
    .next { s with session := { s.session with
      nPartitionErrorStates := Function.update s.session.nPartitionErrorStates p
        s.session.nError } }

def indexPass (s : Indexed) : Flow Indexed :=
  let pInstruction := s.nInstructionsIndex.toNat / 4 * 4
  if s.nInstructionsIndex + 4 ≤ nInstructionsBufferSize then
    let id := b.wordAt pInstruction
    let s := s.read 4 [.instruction pInstruction 4]
    if opcode id = 0 then indexGeneric b nInstructionsBufferSize s pInstruction id
    else if s.session.nPartitionErrorStates (partitionID id) = sSuccess then
      indexOperation ss faults b nInstructionsBufferSize s pInstruction (partitionID id)
        (opcode id)
    else .next s
  else .stop s

end

/-- The size that the service has returned, if it is one. -/
def checkedSize (size : UInt32) : UInt32 :=
  if size.toNat > instructionsBufferSize then 0 else size

def Indexed.start (w : Storage) : Indexed := ⟨0, Session.start w [], []⟩

/-- The batch of instructions in the exchange buffer. -/
def indexBatch (ss : SectorSize) (faults : Nat → Option Fault) (w : Storage) (b : ExchangeBuffer)
    (size : UInt32) : Option Indexed :=
  loop (indexPass ss faults b (checkedSize size)) (instructionsBufferSize + 1) (Indexed.start w)

/-! ## Words at an index -/

/-- The bytes that are left behind an index. -/
def ExchangeBuffer.behind (b : ExchangeBuffer) (size : UInt32) (i : Nat) : List UInt8 :=
  (b.bytes.take size.toNat).drop i

variable {ss : SectorSize} {faults : Nat → Option Fault} {b : ExchangeBuffer} {size : UInt32}

theorem behind_length (hsize : size.toNat ≤ instructionsBufferSize) (i : Nat) :
    (b.behind size i).length = size.toNat - i := by
  rw [ExchangeBuffer.behind, List.length_drop, List.length_take, b.length, Nat.min_eq_left hsize]

theorem readWord_behind (hsize : size.toNat ≤ instructionsBufferSize) (i : Nat) :
    readWord (b.behind size i) =
      if i + 4 ≤ size.toNat then some (b.wordAt i, b.behind size (i + 4)) else none := by
  split
  next hin =>
    have hlen : ¬ (b.bytes.drop i).length < 4 := by
      rw [List.length_drop, b.length]
      omega
    rw [← readWord_eq_none] at hlen
    obtain ⟨⟨w, r⟩, hw⟩ := Option.ne_none_iff_exists'.mp hlen
    obtain ⟨b₀, b₁, b₂, b₃, hbytes, hread⟩ := readWord_eq_some hw
    have hr : b.bytes.drop (i + 4) = r := by
      rw [← List.drop_drop, hbytes]
      rfl
    obtain ⟨k, hk⟩ : ∃ k, size.toNat - i = k + 4 := ⟨size.toNat - i - 4, by omega⟩
    rw [ExchangeBuffer.behind, List.drop_take, hbytes, hk, ExchangeBuffer.behind, List.drop_take,
      hr, show size.toNat - (i + 4) = k by omega, ExchangeBuffer.wordAt, hw]
    exact hread _
  next hout =>
    rw [readWord_eq_none, behind_length hsize]
    omega

theorem behind_behind (i k : Nat) : (b.behind size i).drop k = b.behind size (i + k) := by
  rw [ExchangeBuffer.behind, List.drop_drop, ExchangeBuffer.behind]

theorem index_fits {i n : UInt32} (hi : i.toNat ≤ instructionsBufferSize + 3)
    (hn : n.toNat ≤ instructionsBufferSize) :
    i + n ≤ size ↔ i.toNat + n.toNat ≤ size.toNat := by
  simp only [instructionsBufferSize] at hi hn
  rw [UInt32.le_iff_toNat_le, UInt32.toNat_add, Nat.mod_eq_of_lt (by omega)]

theorem index_add {i n : UInt32} (hi : i.toNat ≤ instructionsBufferSize + 3)
    (hn : n.toNat ≤ instructionsBufferSize) : (i + n).toNat = i.toNat + n.toNat := by
  simp only [instructionsBufferSize] at hi hn
  rw [UInt32.toNat_add, Nat.mod_eq_of_lt (by omega)]

theorem align_toNat (x : UInt32) : (x &&& ~~~3).toNat = x.toNat / 4 * 4 :=
  toNat_clearLowMask x.toBitVec (n := 2) (by decide)

/-! ## The same passes -/

/-- A session without the bytes that it has left and its record of instructions. -/
def Session.bare (t : Session) : Session := { t with rest := [], split := [] }

/-- The index stands on a word, at most three bytes behind the size, and the session goes
on with the bytes behind it. -/
structure Mirrors (b : ExchangeBuffer) (size : UInt32) (s : Indexed) (t : Session) : Prop where
  aligned : s.nInstructionsIndex.toNat % 4 = 0
  near : s.nInstructionsIndex.toNat ≤ size.toNat + 3
  rest : t.rest = b.behind size s.nInstructionsIndex.toNat
  same : s.session = t.bare

theorem Mirrors.of_index {s : Indexed} {t : Session} {n : Nat}
    (hindex : s.nInstructionsIndex.toNat = n) (hn : n % 4 = 0) (hle : n ≤ size.toNat + 3)
    (hrest : t.rest = b.behind size n) (hsame : s.session = t.bare) : Mirrors b size s t := by
  subst hindex
  exact ⟨hn, hle, hrest, hsame⟩

/-- Two passes that end alike. -/
inductive SameFlow (b : ExchangeBuffer) (size : UInt32) : Flow Indexed → Flow Session → Prop where
  | next {s : Indexed} {t : Session} (h : Mirrors b size s t) :
      SameFlow b size (.next s) (.next t)
  | stop {s : Indexed} {t : Session} (h : s.session = t.bare) :
      SameFlow b size (.stop s) (.stop t)

/-- What `partitionInstruction` makes of the parameters that it has read. -/
def Session.proceed (ss : SectorSize) (faults : Nat → Option Fault) (t : Session) (id : UInt32)
    (r : List UInt8) : Parsed → Flow Session
  | .truncated => .stop (t.advance id [] r)
  | .unknown =>
    .next { t.advance id [] r with
      nPartitionErrorStates :=
        Function.update t.nPartitionErrorStates (partitionID id) t.nError }
  | .op o params r' => .next ((t.advance id params r').execute ss faults (partitionID id) o)

theorem partitionInstruction_eq (t : Session) (id : UInt32) (r : List UInt8) :
    partitionInstruction ss faults t id r =
      if t.nPartitionErrorStates (partitionID id) = sSuccess then
        t.proceed ss faults id r (parseOperation (opcode id) r)
      else .next (t.advance id [] r) := by
  rw [partitionInstruction]
  cases parseOperation (opcode id) r <;> rfl

section
variable {s : Indexed} {t : Session} {i : Nat} (hsize : size.toNat ≤ instructionsBufferSize)
  (haligned : i % 4 = 0) (hindex : s.nInstructionsIndex.toNat = i + 4)
  (hin : i + 4 ≤ size.toNat) (hsame : s.session = t.bare)

section
include haligned hindex hin hsame

theorem execute_plain (o : FileOp) (id : UInt32) :
    SameFlow b size (.next (s.execute ss faults (partitionID id) o))
      (t.proceed ss faults id (b.behind size (i + 4)) (.op o [] (b.behind size (i + 4)))) := by
  refine .next (.of_index (n := i + 4) hindex (by omega) (by omega) rfl ?_)
  show s.session.execute ss faults (partitionID id) o = _
  rw [hsame]
  rfl

end

include hsize haligned hindex hin hsame

theorem execute_same {n : UInt32} (hn : i + 4 + n.toNat ≤ size.toNat) (hword : n.toNat % 4 = 0)
    (ts : List Touch) (p : Nat) (o : FileOp) (id : UInt32) (params : List UInt8) :
    SameFlow b size (.next ((s.read n ts).execute ss faults p o))
      (.next ((t.advance id params (b.behind size (i + 4 + n.toNat))).execute ss faults p o)) := by
  have hadd : (s.nInstructionsIndex + n).toNat = i + 4 + n.toNat := by
    rw [index_add (by omega) (by omega), hindex]
  refine .next (.of_index hadd (by omega) (by omega) rfl ?_)
  show s.session.execute ss faults p o = _
  rw [hsame]
  rfl

theorem indexReadWrite_same (o : UInt32 → UInt32 → FileOp) (id : UInt32) :
    SameFlow b size (indexReadWrite ss faults b size s i (partitionID id) o)
      (t.proceed ss faults id (b.behind size (i + 4))
        (parseReadWrite o (b.behind size (i + 4)))) := by
  have h8 : (8 : UInt32).toNat = 8 := rfl
  have hfits : s.nInstructionsIndex + 8 ≤ size ↔ i + 4 + 8 ≤ size.toNat := by
    rw [index_fits (by omega) (by rw [h8]; decide), hindex, h8]
  rw [indexReadWrite, parseReadWrite, readWord_behind hsize]
  by_cases hfirst : i + 4 + 4 ≤ size.toNat
  · simp only [hfirst, if_true, readWord_behind hsize]
    by_cases hsecond : i + 4 + 4 + 4 ≤ size.toNat
    · rw [if_pos hsecond, if_pos (hfits.mpr (by omega))]
      exact execute_same hsize haligned hindex hin hsame (n := 8) (by rw [h8]; omega) rfl _ _ _ id _
    · rw [if_neg hsecond, if_neg (fun h => hsecond (by rw [hfits] at h; omega))]
      exact .stop hsame
  · simp only [hfirst, if_false]
    rw [if_neg (fun h => hfirst (by rw [hfits] at h; omega))]
    exact .stop hsame

theorem indexSetSize_same (id : UInt32) :
    SameFlow b size (indexSetSize ss faults b size s i (partitionID id))
      (t.proceed ss faults id (b.behind size (i + 4)) (parseSetSize (b.behind size (i + 4)))) := by
  have h4 : (4 : UInt32).toNat = 4 := rfl
  have hfits : s.nInstructionsIndex + 4 ≤ size ↔ i + 4 + 4 ≤ size.toNat := by
    rw [index_fits (by omega) (by rw [h4]; decide), hindex, h4]
  rw [indexSetSize, parseSetSize, readWord_behind hsize]
  by_cases hin' : i + 4 + 4 ≤ size.toNat
  · rw [if_pos hin', if_pos (hfits.mpr hin')]
    exact execute_same hsize haligned hindex hin hsame (n := 4) (by rw [h4]; omega) rfl _ _ _ id _
  · rw [if_neg hin', if_neg (fun h => hin' (hfits.mp h))]
    exact .stop hsame

theorem indexOperation_same (id : UInt32) :
    SameFlow b size (indexOperation ss faults b size s i (partitionID id) (opcode id))
      (t.proceed ss faults id (b.behind size (i + 4))
        (parseOperation (opcode id) (b.behind size (i + 4)))) := by
  have hplain : ∀ o, SameFlow b size (.next (s.execute ss faults (partitionID id) o))
      (t.proceed ss faults id (b.behind size (i + 4)) (.op o [] (b.behind size (i + 4)))) :=
    fun o => execute_plain haligned hindex hin hsame o id
  rw [indexOperation, parseOperation]
  by_cases hcreate : opcode id = instructionPartitionCreate
  · rw [if_pos hcreate, if_pos hcreate]
    exact hplain .create
  rw [if_neg hcreate, if_neg hcreate]
  by_cases hopen : opcode id = instructionPartitionOpen
  · rw [if_pos hopen, if_pos hopen]
    exact hplain .open
  rw [if_neg hopen, if_neg hopen]
  by_cases hread : opcode id = instructionPartitionRead
  · rw [if_pos hread, if_pos hread]
    exact indexReadWrite_same hsize haligned hindex hin hsame .read id
  rw [if_neg hread, if_neg hread]
  by_cases hwrite : opcode id = instructionPartitionWrite
  · rw [if_pos hwrite, if_pos hwrite]
    exact indexReadWrite_same hsize haligned hindex hin hsame .write id
  rw [if_neg hwrite, if_neg hwrite]
  by_cases hsync : opcode id = instructionPartitionSync
  · rw [if_pos hsync, if_pos hsync]
    exact hplain .sync
  rw [if_neg hsync, if_neg hsync]
  by_cases hset : opcode id = instructionPartitionSetSize
  · rw [if_pos hset, if_pos hset]
    exact indexSetSize_same hsize haligned hindex hin hsame id
  rw [if_neg hset, if_neg hset]
  by_cases hclose : opcode id = instructionPartitionClose
  · rw [if_pos hclose, if_pos hclose]
    exact hplain .close
  rw [if_neg hclose, if_neg hclose]
  by_cases hdestroy : opcode id = instructionPartitionDestroy
  · rw [if_pos hdestroy, if_pos hdestroy]
    exact hplain .destroy
  rw [if_neg hdestroy, if_neg hdestroy]
  refine .next (.of_index (n := i + 4) hindex (by omega) (by omega) rfl ?_)
  simp only [hsame]
  rfl

theorem indexNotify_same (id : UInt32) (hnotify : id = instructionNotify) :
    SameFlow b size (indexGeneric b size s i id)
      (genericInstruction t id (b.behind size (i + 4))) := by
  have h8 : (8 : UInt32).toNat = 8 := rfl
  have h3 : (3 : UInt32).toNat = 3 := rfl
  have hfits : s.nInstructionsIndex + 8 ≤ size ↔ i + 4 + 8 ≤ size.toNat := by
    rw [index_fits (by omega) (by rw [h8]; decide), hindex, h8]
  have hother : id ≠ instructionShutdown := by
    rw [hnotify]
    decide
  rw [indexGeneric, genericInstruction, if_neg hother, if_neg hother, if_pos hnotify,
    if_pos hnotify, parseNotify, readWord_behind hsize]
  by_cases hfirst : i + 4 + 4 ≤ size.toNat
  · simp only [hfirst, if_true, readWord_behind hsize]
    by_cases hsecond : i + 4 + 4 + 4 ≤ size.toNat
    · rw [if_pos hsecond, if_pos (hfits.mpr (by omega))]
      have hword : b.wordAt (i + 4 + 4) = b.wordAt (i + 8) := rfl
      simp only [hword, behind_length hsize, behind_behind]
      generalize b.wordAt (i + 8) = nMessageSize
      have hmax : nMessageSize > 99 * 4 ↔ nMessageSize.toNat > 99 * 4 := by
        rw [gt_iff_lt, UInt32.lt_iff_toNat_lt]
        rfl
      by_cases hlong : nMessageSize.toNat > 99 * 4
      · rw [if_pos (hmax.mpr hlong), if_pos hlong]
        exact .stop hsame
      rw [if_neg (fun h => hlong (hmax.mp h)), if_neg hlong]
      generalize hread : s.read 8 [.instruction (i + 4) 4, .instruction (i + 8) 4] = s₁
      have hindex₁ : s₁.nInstructionsIndex.toNat = i + 4 + 8 := by
        rw [← hread]
        show (s.nInstructionsIndex + 8).toNat = _
        rw [index_add (by omega) (by rw [h8]; decide), hindex, h8]
      have hsame₁ : s₁.session = t.bare := by
        rw [← hread]
        exact hsame
      have hlong' : nMessageSize.toNat ≤ instructionsBufferSize := by
        simp only [instructionsBufferSize]
        omega
      have hfits₁ : s₁.nInstructionsIndex + nMessageSize ≤ size ↔
          i + 4 + 8 + nMessageSize.toNat ≤ size.toNat := by
        rw [index_fits (by omega) hlong', hindex₁]
      by_cases hshort : size.toNat - (i + 4 + 4 + 4) < nMessageSize.toNat
      · rw [if_pos hshort, if_neg (fun h => by rw [hfits₁] at h; omega)]
        exact .stop hsame₁
      · rw [if_neg hshort, if_pos (hfits₁.mpr (by omega))]
        have hmessage : (b.behind size (i + 4 + 4 + 4)).take nMessageSize.toNat =
            (b.bytes.drop (i + 12)).take nMessageSize.toNat := by
          rw [ExchangeBuffer.behind, List.drop_take, List.take_take, Nat.min_eq_left (by omega)]
        rw [hmessage]
        refine .next (.of_index (n := (i + 12 + nMessageSize.toNat + 3) / 4 * 4) ?_ (by omega)
          (by omega) ?_ ?_)
        · show ((s₁.nInstructionsIndex + nMessageSize + 3) &&& ~~~3).toNat = _
          rw [align_toNat, index_add (by rw [index_add (by omega) hlong']; omega)
            (by rw [h3]; decide), index_add (by omega) hlong', hindex₁, h3]
        · show b.behind size (i + 4 + 4 + 4 + (nMessageSize.toNat + 3) / 4 * 4) = _
          congr 1
          omega
        · simp only [Indexed.read, hsame₁]
          rfl
    · rw [if_neg hsecond, if_neg (fun h => hsecond (by rw [hfits] at h; omega))]
      exact .stop hsame
  · simp only [hfirst, if_false]
    rw [if_neg (fun h => hfirst (by rw [hfits] at h; omega))]
    exact .stop hsame

theorem indexGeneric_same (id : UInt32) :
    SameFlow b size (indexGeneric b size s i id)
      (genericInstruction t id (b.behind size (i + 4))) := by
  by_cases hnotify : id = instructionNotify
  · exact indexNotify_same hsize haligned hindex hin hsame id hnotify
  rw [indexGeneric, genericInstruction]
  split
  · refine .stop ?_
    rw [hsame]
    rfl
  · refine .next (.of_index (n := i + 4) hindex (by omega) (by omega) rfl ?_)
    simp only [hsame]
    rfl

end

theorem indexPass_same {s : Indexed} {t : Session}
    (hsize : size.toNat ≤ instructionsBufferSize) (h : Mirrors b size s t) :
    SameFlow b size (indexPass ss faults b size s) (pass ss faults t) := by
  have h4 : (4 : UInt32).toNat = 4 := rfl
  have halign := h.aligned
  have hnear := h.near
  have hfits : s.nInstructionsIndex + 4 ≤ size ↔ s.nInstructionsIndex.toNat + 4 ≤ size.toNat := by
    rw [index_fits (by omega) (by rw [h4]; decide), h4]
  have hword : s.nInstructionsIndex.toNat / 4 * 4 = s.nInstructionsIndex.toNat := by omega
  rw [indexPass, pass, h.rest, readWord_behind hsize]
  simp only [hword]
  by_cases hin : s.nInstructionsIndex.toNat + 4 ≤ size.toNat
  · rw [if_pos hin, if_pos (hfits.mpr hin)]
    generalize hid : b.wordAt s.nInstructionsIndex.toNat = id
    generalize hread : s.read 4 [.instruction s.nInstructionsIndex.toNat 4] = s₁
    have hindex : s₁.nInstructionsIndex.toNat = s.nInstructionsIndex.toNat + 4 := by
      rw [← hread]
      show (s.nInstructionsIndex + 4).toNat = _
      rw [index_add (by omega) (by rw [h4]; decide), h4]
    have hsame : s₁.session = t.bare := by
      rw [← hread]
      exact h.same
    simp only
    split
    · exact indexGeneric_same hsize halign hindex hin hsame id
    · rw [partitionInstruction_eq]
      have hstates : s₁.session.nPartitionErrorStates = t.nPartitionErrorStates := by
        rw [hsame]
        rfl
      rw [hstates]
      split
      · exact indexOperation_same hsize halign hindex hin hsame id
      · exact .next (.of_index hindex (by omega) (by omega) rfl hsame)
  · rw [if_neg hin, if_neg (fun hle => hin (hfits.mp hle))]
    exact .stop h.same

theorem checkedSize_le (size : UInt32) : (checkedSize size).toNat ≤ instructionsBufferSize := by
  rw [checkedSize]
  split
  next => exact Nat.zero_le _
  next hle => exact Nat.le_of_not_lt hle

theorem indexBatch_returns (ss : SectorSize) (faults : Nat → Option Fault) (w : Storage)
    (b : ExchangeBuffer) (size : UInt32) :
    ∃ s t, indexBatch ss faults w b size = some s ∧
      batch ss faults w (instructionBytes b.bytes size) = some t ∧ s.session = t.bare := by
  have hsize := checkedSize_le size
  have hbytes : instructionBytes b.bytes size = b.behind (checkedSize size) 0 := by
    rw [instructionBytes, checkedSize, ExchangeBuffer.behind]
    split
    next => rfl
    next => rfl
  have hlen : (instructionBytes b.bytes size).length ≤ instructionsBufferSize := by
    rw [hbytes, behind_length hsize]
    omega
  have hstart : Mirrors b (checkedSize size) (Indexed.start w)
      (Session.start w (instructionBytes b.bytes size)) :=
    .of_index (n := 0) rfl rfl (Nat.zero_le _) hbytes rfl
  have hpass : ∀ s t, Mirrors b (checkedSize size) s t →
      (∃ s' t', indexPass ss faults b (checkedSize size) s = .next s' ∧
        pass ss faults t = .next t' ∧ Mirrors b (checkedSize size) s' t') ∨
      ∃ s' t', indexPass ss faults b (checkedSize size) s = .stop s' ∧
        pass ss faults t = .stop t' ∧ s'.session = t'.bare := by
    intro s t h
    have hsame : SameFlow b (checkedSize size) (indexPass ss faults b (checkedSize size) s)
        (pass ss faults t) := indexPass_same hsize h
    generalize indexPass ss faults b (checkedSize size) s = x at hsame ⊢
    generalize pass ss faults t = y at hsame ⊢
    cases hsame with
    | next h' => exact Or.inl ⟨_, _, rfl, rfl, h'⟩
    | stop h' => exact Or.inr ⟨_, _, rfl, rfl, h'⟩
  obtain ⟨t, ht⟩ := batch_returns ss faults w (instructionBytes b.bytes size)
  have ht' : loop (pass ss faults) (instructionsBufferSize + 1)
      (Session.start w (instructionBytes b.bytes size)) = some t :=
    loop_mono (Nat.add_le_add_right hlen 1) ht
  obtain ⟨s, hs, hsame⟩ := loop_simulates hpass hstart ht'
  refine ⟨s, t, ?_, ht, hsame⟩
  rw [indexBatch]
  exact hs

end Omap4Hal.Security

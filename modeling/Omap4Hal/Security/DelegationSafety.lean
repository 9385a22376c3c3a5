import Omap4Hal.Security.InstructionIndex

/- What the instruction loop touches. The reads of the buffer stay below the size, and the
   copy of a message inside `pMessage`. The bytes that READ and WRITE move are inside the
   workspace exactly if the offsets that the instructions name are: `OffsetInside` says
   so of the instruction at the index, and `delegation_inside_iff` of a batch. -/
namespace Omap4Hal.Security
open Lib

/-- `sizeof(pMessage)`, of 100 wide characters. -/
def messageBufferSize : Nat := 100 * 4

def Touch.Within (size : UInt32) : Touch → Prop
  | .instruction off len => off + len ≤ size.toNat
  | .message len => len < messageBufferSize
  | .workspace _ _ => True

/-- Every byte is one of the workspace. A pointer has 32 bits. -/
def Touch.InWorkspace (nWorkspaceSize : UInt32) : Touch → Prop
  | .workspace off len => ∀ i < len, (off.toNat + i) % 2 ^ 32 < nWorkspaceSize.toNat
  | _ => True

section
variable (ss : SectorSize) (faults : Nat → Option Fault) (b : ExchangeBuffer)
  (size nWorkspaceSize : UInt32) (s : Indexed)

/-- The operation moves no byte, or only bytes that end inside the workspace. -/
def MovesInside (p : Nat) (off : UInt32) (o : FileOp) : Prop :=
  let moved := transferred ss (s.session.partitions p) (faults s.session.executed.length) o
  moved = 0 ∨ off.toNat + moved ≤ nWorkspaceSize.toNat

/-- A READ or WRITE with all its parameters, of the instruction at `i`. -/
def OperationInside (i p : Nat) (code : UInt32) : Prop :=
  i + 12 ≤ size.toNat →
    (code = instructionPartitionRead →
      MovesInside ss faults nWorkspaceSize s p (b.wordAt (i + 8))
        (.read (b.wordAt (i + 4)) (b.wordAt (i + 8)))) ∧
    (code = instructionPartitionWrite →
      MovesInside ss faults nWorkspaceSize s p (b.wordAt (i + 8))
        (.write (b.wordAt (i + 4)) (b.wordAt (i + 8))))

/-- If the instruction at the index is a READ or WRITE that is executed, then it keeps to the
workspace. -/
def OffsetInside : Prop :=
  let i := s.nInstructionsIndex.toNat
  let p := partitionID (b.wordAt i)
  s.session.nPartitionErrorStates p = sSuccess →
    OperationInside ss faults b size nWorkspaceSize s i p (opcode (b.wordAt i))

end

variable {ss : SectorSize} {faults : Nat → Option Fault} {b : ExchangeBuffer}
  {size nWorkspaceSize : UInt32}

theorem inWorkspace_iff {off : UInt32} {len : Nat} :
    (Touch.workspace off len).InWorkspace nWorkspaceSize ↔
      len = 0 ∨ off.toNat + len ≤ nWorkspaceSize.toNat := by
  have hoff := off.toNat_lt
  have hsize := nWorkspaceSize.toNat_lt
  rw [Touch.InWorkspace]
  constructor
  · intro h
    by_contra hout
    rw [not_or] at hout
    by_cases hlt : off.toNat < nWorkspaceSize.toNat
    · have hend := h (nWorkspaceSize.toNat - off.toNat) (by omega)
      rw [Nat.mod_eq_of_lt (by omega)] at hend
      omega
    · have hfirst := h 0 (by omega)
      rw [Nat.mod_eq_of_lt (by omega)] at hfirst
      omega
  · intro h i hi
    rw [Nat.mod_eq_of_lt (by omega)]
    omega

/-! ## One pass -/

/-- What a pass adds to what has been touched: the buffer and the message are kept to, and
the workspace exactly if `P` holds. -/
def Touches (size nWorkspaceSize : UInt32) (s s' : Indexed) (P : Prop) : Prop :=
  ∃ l, s'.touched = s.touched ++ l ∧ (∀ a ∈ l, a.Within size) ∧
    ((∀ a ∈ l, a.InWorkspace nWorkspaceSize) ↔ P)

variable {s s' : Indexed}

theorem Touches.nothing {P : Prop} (h : s'.touched = s.touched) (hP : P) :
    Touches size nWorkspaceSize s s' P := by
  refine ⟨[], by rw [h, List.append_nil], ?_, ?_⟩
  · intro a ha
    cases ha
  · refine iff_of_true ?_ hP
    intro a ha
    cases ha

theorem Touches.trans {s₁ : Indexed} {P Q : Prop} (h : Touches size nWorkspaceSize s s₁ P)
    (h' : Touches size nWorkspaceSize s₁ s' Q) :
    Touches size nWorkspaceSize s s' (P ∧ Q) := by
  obtain ⟨l, hl, hwithin, hP⟩ := h
  obtain ⟨l', hl', hwithin', hQ⟩ := h'
  refine ⟨l ++ l', by rw [hl', hl, List.append_assoc], ?_, ?_⟩
  · intro a ha
    rcases List.mem_append.mp ha with ha | ha
    · exact hwithin a ha
    · exact hwithin' a ha
  · rw [← hP, ← hQ]
    simp only [List.mem_append, or_imp, forall_and]

theorem Touches.after_read {P : Prop} {n : UInt32} {ts : List Touch}
    (h : Touches size nWorkspaceSize (s.read n ts) s' P) (hin : ∀ a ∈ ts, a.Within size)
    (hno : ∀ a ∈ ts, a.InWorkspace nWorkspaceSize) : Touches size nWorkspaceSize s s' P := by
  have hread : Touches size nWorkspaceSize s (s.read n ts) True :=
    ⟨ts, rfl, hin, iff_of_true hno trivial⟩
  simpa only [true_and] using hread.trans h

theorem execute_touches (ss : SectorSize) (faults : Nat → Option Fault) (s : Indexed) (p : Nat)
    (o : FileOp) :
    Touches size nWorkspaceSize s (s.execute ss faults p o)
      (∀ a ∈ workspaceTouched ss (s.session.partitions p) (faults s.session.executed.length) o,
        a.InWorkspace nWorkspaceSize) := by
  refine ⟨_, rfl, ?_, Iff.rfl⟩
  intro a ha
  cases o with
  | read i off =>
    obtain rfl := List.mem_singleton.mp ha
    trivial
  | write i off =>
    obtain rfl := List.mem_singleton.mp ha
    trivial
  | create => cases ha
  | «open» => cases ha
  | close => cases ha
  | destroy => cases ha
  | setSize n => cases ha
  | sync => cases ha

section
variable {s : Indexed} {i : Nat} (hsize : size.toNat ≤ instructionsBufferSize)
  (hindex : s.nInstructionsIndex.toNat = i + 4) (hin : i + 4 ≤ size.toNat)
include hsize hindex hin

theorem indexReadWrite_touches (p : Nat) (o : UInt32 → UInt32 → FileOp)
    (ho : ∀ (x y : UInt32) (q : Partition) (f : Option Fault),
      workspaceTouched ss q f (o x y) = [.workspace y (transferred ss q f (o x y))]) :
    Touches size nWorkspaceSize s (indexReadWrite ss faults b size s i p o).state
      (i + 12 ≤ size.toNat → MovesInside ss faults nWorkspaceSize s p (b.wordAt (i + 8))
        (o (b.wordAt (i + 4)) (b.wordAt (i + 8)))) := by
  have h8 : (8 : UInt32).toNat = 8 := rfl
  have hfits : s.nInstructionsIndex + 8 ≤ size ↔ i + 4 + 8 ≤ size.toNat := by
    rw [index_fits (by omega) (by rw [h8]; decide), hindex, h8]
  rw [indexReadWrite]
  by_cases hboth : i + 4 + 8 ≤ size.toNat
  · rw [if_pos (hfits.mpr hboth)]
    have htouch : Touches size nWorkspaceSize
        (s.read 8 [.instruction (i + 4) 4, .instruction (i + 8) 4])
        ((s.read 8 [.instruction (i + 4) 4, .instruction (i + 8) 4]).execute ss faults p
          (o (b.wordAt (i + 4)) (b.wordAt (i + 8)))) _ := execute_touches ss faults _ p _
    rw [ho] at htouch
    simp only [List.mem_singleton, forall_eq, inWorkspace_iff] at htouch
    have hin' : i + 12 ≤ size.toNat := hboth
    simp only [hin', true_implies]
    refine htouch.after_read ?_ ?_
    · simp only [List.mem_cons, List.not_mem_nil, or_false, forall_eq_or_imp, forall_eq,
        Touch.Within]
      omega
    · simp [Touch.InWorkspace]
  · rw [if_neg (fun h => hboth (hfits.mp h))]
    exact .nothing rfl (fun h => absurd h (by omega))

theorem indexSetSize_touches (p : Nat) {P : Prop} (hP : P) :
    Touches size nWorkspaceSize s (indexSetSize ss faults b size s i p).state P := by
  have h4 : (4 : UInt32).toNat = 4 := rfl
  have hfits : s.nInstructionsIndex + 4 ≤ size ↔ i + 4 + 4 ≤ size.toNat := by
    rw [index_fits (by omega) (by rw [h4]; decide), hindex, h4]
  rw [indexSetSize]
  by_cases hword : i + 4 + 4 ≤ size.toNat
  · rw [if_pos (hfits.mpr hword)]
    have hset : Touches size nWorkspaceSize (s.read 4 [.instruction (i + 4) 4])
        ((s.read 4 [.instruction (i + 4) 4]).execute ss faults p
          (.setSize (b.wordAt (i + 4)))) P := .nothing (List.append_nil _) hP
    refine hset.after_read ?_ ?_
    · simpa [Touch.Within] using hword
    · simp [Touch.InWorkspace]
  · rw [if_neg (fun h => hword (hfits.mp h))]
    exact .nothing rfl hP

theorem indexGeneric_touches (id : UInt32) {P : Prop} (hP : P) :
    Touches size nWorkspaceSize s (indexGeneric b size s i id).state P := by
  have h8 : (8 : UInt32).toNat = 8 := rfl
  have hfits : s.nInstructionsIndex + 8 ≤ size ↔ i + 4 + 8 ≤ size.toNat := by
    rw [index_fits (by omega) (by rw [h8]; decide), hindex, h8]
  rw [indexGeneric]
  split
  · exact .nothing rfl hP
  split
  next =>
    by_cases hboth : i + 4 + 8 ≤ size.toNat
    · rw [if_pos (hfits.mpr hboth)]
      simp only
      generalize b.wordAt (i + 8) = nMessageSize
      have hmax : nMessageSize > 99 * 4 ↔ nMessageSize.toNat > 99 * 4 := by
        rw [gt_iff_lt, UInt32.lt_iff_toNat_lt]
        rfl
      have hwords : ∀ a ∈ [Touch.instruction (i + 4) 4, .instruction (i + 8) 4], a.Within size := by
        simp only [List.mem_cons, List.not_mem_nil, or_false, forall_eq_or_imp, forall_eq,
          Touch.Within]
        omega
      refine Touches.after_read (n := 8) ?_ hwords (by simp [Touch.InWorkspace])
      generalize hread : s.read 8 [.instruction (i + 4) 4, .instruction (i + 8) 4] = s₁
      have hindex₁ : s₁.nInstructionsIndex.toNat = i + 4 + 8 := by
        rw [← hread]
        show (s.nInstructionsIndex + 8).toNat = _
        rw [index_add (by omega) (by rw [h8]; decide), hindex, h8]
      by_cases hlong : nMessageSize.toNat > 99 * 4
      · rw [if_pos (hmax.mpr hlong)]
        exact .nothing rfl hP
      rw [if_neg (fun h => hlong (hmax.mp h))]
      have hfits₁ : s₁.nInstructionsIndex + nMessageSize ≤ size ↔
          i + 4 + 8 + nMessageSize.toNat ≤ size.toNat := by
        rw [index_fits (by omega) (by simp only [instructionsBufferSize]; omega), hindex₁]
      by_cases hmessage : i + 4 + 8 + nMessageSize.toNat ≤ size.toNat
      · rw [if_pos (hfits₁.mpr hmessage)]
        refine Touches.after_read (n := nMessageSize) (.nothing rfl hP) ?_ ?_
        · simp only [List.mem_cons, List.not_mem_nil, or_false, forall_eq_or_imp, forall_eq,
            Touch.Within, messageBufferSize]
          omega
        · simp [Touch.InWorkspace]
      · rw [if_neg (fun h => hmessage (hfits₁.mp h))]
        exact .nothing rfl hP
    · rw [if_neg (fun h => hboth (hfits.mp h))]
      exact .nothing rfl hP
  next => exact .nothing rfl hP

theorem indexOperation_touches (p : Nat) (code : UInt32) :
    Touches size nWorkspaceSize s (indexOperation ss faults b size s i p code).state
      (OperationInside ss faults b size nWorkspaceSize s i p code) := by
  have hread : (instructionPartitionRead = instructionPartitionWrite) = False := by decide
  have hwrite : (instructionPartitionWrite = instructionPartitionRead) = False := by decide
  -- an opcode that is neither READ nor WRITE moves nothing
  have hother : code ≠ instructionPartitionRead → code ≠ instructionPartitionWrite →
      OperationInside ss faults b size nWorkspaceSize s i p code :=
    fun hr hw _ => ⟨fun h => absurd h hr, fun h => absurd h hw⟩
  rw [indexOperation]
  split
  next h => exact .nothing (List.append_nil _) (hother (by rw [h]; decide) (by rw [h]; decide))
  split
  next h => exact .nothing (List.append_nil _) (hother (by rw [h]; decide) (by rw [h]; decide))
  split
  next h =>
    simp only [OperationInside, h, hread, true_implies, false_implies, and_true]
    exact indexReadWrite_touches hsize hindex hin p .read fun _ _ _ _ => rfl
  split
  next h =>
    simp only [OperationInside, h, hwrite, true_implies, false_implies, true_and]
    exact indexReadWrite_touches hsize hindex hin p .write fun _ _ _ _ => rfl
  next hr hw =>
  have hP := hother hr hw
  split
  next => exact .nothing (List.append_nil _) hP
  split
  next => exact indexSetSize_touches hsize hindex hin p hP
  split
  next => exact .nothing (List.append_nil _) hP
  split
  next => exact .nothing (List.append_nil _) hP
  next => exact .nothing rfl hP

end

theorem indexPass_touches {t : Session} (hsize : size.toNat ≤ instructionsBufferSize)
    (h : Mirrors b size s t) :
    Touches size nWorkspaceSize s (indexPass ss faults b size s).state
      (OffsetInside ss faults b size nWorkspaceSize s) := by
  have h4 : (4 : UInt32).toNat = 4 := rfl
  have halign := h.aligned
  have hnear := h.near
  have hfits : s.nInstructionsIndex + 4 ≤ size ↔ s.nInstructionsIndex.toNat + 4 ≤ size.toNat := by
    rw [index_fits (by omega) (by rw [h4]; decide), h4]
  have hword : s.nInstructionsIndex.toNat / 4 * 4 = s.nInstructionsIndex.toNat := by omega
  rw [indexPass]
  simp only [hword]
  by_cases hin : s.nInstructionsIndex.toNat + 4 ≤ size.toNat
  · rw [if_pos (hfits.mpr hin)]
    have hindex : (s.read 4 [.instruction s.nInstructionsIndex.toNat 4]).nInstructionsIndex.toNat =
        s.nInstructionsIndex.toNat + 4 := by
      show (s.nInstructionsIndex + 4).toNat = _
      rw [index_add (by omega) (by rw [h4]; decide), h4]
    have hrest : Touches size nWorkspaceSize
        (s.read 4 [.instruction s.nInstructionsIndex.toNat 4])
        (if opcode (b.wordAt s.nInstructionsIndex.toNat) = 0 then
          indexGeneric b size (s.read 4 [.instruction s.nInstructionsIndex.toNat 4])
            s.nInstructionsIndex.toNat (b.wordAt s.nInstructionsIndex.toNat)
        else if s.session.nPartitionErrorStates
            (partitionID (b.wordAt s.nInstructionsIndex.toNat)) = sSuccess then
          indexOperation ss faults b size (s.read 4 [.instruction s.nInstructionsIndex.toNat 4])
            s.nInstructionsIndex.toNat (partitionID (b.wordAt s.nInstructionsIndex.toNat))
            (opcode (b.wordAt s.nInstructionsIndex.toNat))
        else .next (s.read 4 [.instruction s.nInstructionsIndex.toNat 4])).state
        (OffsetInside ss faults b size nWorkspaceSize s) := by
      split
      next hop =>
        apply indexGeneric_touches hsize hindex hin
        intro _ _
        rw [hop]
        exact ⟨fun h => absurd h (by decide), fun h => absurd h (by decide)⟩
      next =>
        split
        next hok =>
          rw [OffsetInside]
          simp only [hok, true_implies]
          exact indexOperation_touches hsize hindex hin _ _
        next herr => exact .nothing rfl fun h => absurd h herr
    refine hrest.after_read ?_ ?_
    · simpa [Touch.Within] using hin
    · simp [Touch.InWorkspace]
  · rw [if_neg (fun hle => hin (hfits.mp hle))]
    exact .nothing rfl fun _ hin' => absurd hin' (by omega)

/-! ## The batch -/

theorem indexPass_mirrors {t : Session} (hsize : size.toNat ≤ instructionsBufferSize)
    (h : Mirrors b size s t) (hnext : indexPass ss faults b size s = .next s') :
    ∃ t', Mirrors b size s' t' := by
  have hsame : SameFlow b size (indexPass ss faults b size s) (pass ss faults t) :=
    indexPass_same hsize h
  rw [hnext] at hsame
  generalize pass ss faults t = x at hsame
  cases hsame with
  | next h' => exact ⟨_, h'⟩

theorem loop_touches {n : Nat} {t : Session} (hsize : size.toNat ≤ instructionsBufferSize)
    (h : Mirrors b size s t) (hloop : loop (indexPass ss faults b size) n s = some s') :
    Touches size nWorkspaceSize s s'
      (Visits (indexPass ss faults b size) (OffsetInside ss faults b size nWorkspaceSize) n s) := by
  induction n generalizing s t with
  | zero => cases hloop
  | succ n ih =>
    have htouch : Touches size nWorkspaceSize s (indexPass ss faults b size s).state
        (OffsetInside ss faults b size nWorkspaceSize s) := indexPass_touches hsize h
    rw [Visits]
    cases hpass : indexPass ss faults b size s with
    | stop s₁ =>
      rw [loop_stop hpass, Option.some.injEq] at hloop
      rw [hpass] at htouch
      subst hloop
      simpa only [Flow.state, reduceCtorEq, false_implies, implies_true, and_true] using htouch
    | next s₁ =>
      rw [loop_next hpass] at hloop
      rw [hpass] at htouch
      obtain ⟨t₁, h₁⟩ := indexPass_mirrors hsize h hpass
      simpa only [Flow.state, Flow.next.injEq, forall_eq'] using htouch.trans (ih h₁ hloop)

/-- For every content of the instruction buffer, every size that the service returns, and
whatever the file system does: the loop is left, it reads no word past the size, and no
message exceeds `pMessage`. READ and WRITE touch only bytes of the workspace if and only
if, at every instruction the loop comes to, the offset that it names is such. -/
theorem delegation_inside_iff (ss : SectorSize) (faults : Nat → Option Fault) (w : Storage)
    (b : ExchangeBuffer) (size nWorkspaceSize : UInt32) :
    ∃ t, indexBatch ss faults w b size = some t ∧
      (∀ a ∈ t.touched, a.Within (checkedSize size)) ∧
      ((∀ a ∈ t.touched, a.InWorkspace nWorkspaceSize) ↔
        Visits (indexPass ss faults b (checkedSize size))
          (OffsetInside ss faults b (checkedSize size) nWorkspaceSize)
          (instructionsBufferSize + 1) (Indexed.start w)) := by
  obtain ⟨s, t, hs, -, -⟩ := indexBatch_returns ss faults w b size
  have hstart : Mirrors b (checkedSize size) (Indexed.start w)
      (Session.start w (b.behind (checkedSize size) 0)) :=
    .of_index (n := 0) rfl rfl (Nat.zero_le _) rfl rfl
  have hloop := hs
  rw [indexBatch] at hloop
  obtain ⟨l, hl, hwithin, hiff⟩ := loop_touches (checkedSize_le size) hstart hloop
  have htouched : s.touched = l := hl
  exact ⟨s, hs, htouched ▸ hwithin, htouched ▸ hiff⟩

theorem movesInside_of_sector {p : Nat} {off : UInt32} (o : FileOp)
    (h : off.toNat + ss.size ≤ nWorkspaceSize.toNat) :
    MovesInside ss faults nWorkspaceSize s p off o := by
  have hmoved := transferred_le ss (s.session.partitions p) (faults s.session.executed.length) o
  exact .inr (by omega)

/-- The words of the instructions are enough: every READ and WRITE that names a sector of the
workspace keeps to it. -/
theorem delegation_inside_of_words {w : Storage}
    (h : ∀ i, i + 12 ≤ (checkedSize size).toNat →
      opcode (b.wordAt i) = instructionPartitionRead ∨
        opcode (b.wordAt i) = instructionPartitionWrite →
      (b.wordAt (i + 8)).toNat + ss.size ≤ nWorkspaceSize.toNat) :
    ∃ t, indexBatch ss faults w b size = some t ∧
      ∀ a ∈ t.touched, a.InWorkspace nWorkspaceSize := by
  obtain ⟨s, -, hs, -, -⟩ := indexBatch_returns ss faults w b size
  have hstart : Mirrors b (checkedSize size) (Indexed.start w)
      (Session.start w (b.behind (checkedSize size) 0)) :=
    .of_index (n := 0) rfl rfl (Nat.zero_le _) rfl rfl
  have hloop := hs
  rw [indexBatch] at hloop
  obtain ⟨l, hl, -, hiff⟩ := loop_touches (checkedSize_le size) hstart hloop
  have htouched : s.touched = l := hl
  refine ⟨s, hs, htouched ▸ hiff.mpr (.of_forall fun s _ hin => ⟨?_, ?_⟩)⟩
  · exact fun hread => movesInside_of_sector _ (h _ hin (.inl hread))
  · exact fun hwrite => movesInside_of_sector _ (h _ hin (.inr hwrite))

/-- CREATE of partition 1, then WRITE of its first sector from offset `0x20000`. -/
def writeOutside : ExchangeBuffer where
  bytes := [0x11, 0, 0, 0, 0x14, 0, 0, 0, 0, 0, 0, 0, 0, 0, 2, 0] ++ List.replicate 384 0
  length := by rw [List.length_append, List.length_replicate]; rfl

/-- In a workspace of 128 KiB, as long as the default one, the WRITE takes the 512 bytes
behind it. -/
theorem delegation_outside :
    (indexBatch ⟨512, Or.inl rfl⟩ (fun _ => none) ⟨fun _ => .absent, List.replicate 0x20000 0⟩
        writeOutside 16).map (·.touched) =
        some [.instruction 0 4, .instruction 4 4, .instruction 8 4, .instruction 12 4,
          .workspace 0x20000 512] ∧
      ¬ (Touch.workspace 0x20000 512).InWorkspace 0x20000 := by
  refine ⟨rfl, ?_⟩
  rw [inWorkspace_iff]
  decide

end Omap4Hal.Security

import Omap4Hal.Security.Delegation

/- How the instruction loop splits its buffer, compared with the encoding. The
   loop follows the encoding as long as it executes what it reads. It leaves the
   encoding when it skips a READ, WRITE or SET_SIZE: the parameters stay behind
   and are read as instructions. `decoding_iff` says that there is no other way, but for
   an access outside of the workspace, which may change the buffer itself. -/
namespace Omap4Hal.Security
open Lib
open Session
open List (append_assoc append_nil cons singleton_append)

/-- A READ, WRITE or SET_SIZE that is skipped has no parameters left to be taken for an
instruction. -/
def SplitOk (s : Session) : Prop :=
  ∀ id r, readWord s.rest = some (id, r) →
    s.nPartitionErrorStates (partitionID id) ≠ sSuccess → HasParams (opcode id) → r.length < 4

/-- The operations of a partition, in order. -/
def opsOn (q : Nat) (l : List (Nat × FileOp)) : List FileOp :=
  (l.filter fun x => x.1 = q).map (·.2)

def executedOn (q : Nat) (l : List Executed) : List FileOp :=
  opsOn q (l.map fun x => (x.partition, x.op))

def encodedOn (q : Nat) (l : List Instruction) : List FileOp :=
  opsOn q (l.filterMap Instruction.operation)

/-- Of the operations that these instructions have for a partition, a first part has been
executed, and all of them if the partition has no error. -/
def ExecutesOf (l : List Instruction) (t : Session) : Prop :=
  ∀ q, executedOn q t.executed <+: encodedOn q l ∧
    (t.nPartitionErrorStates q = sSuccess → executedOn q t.executed = encodedOn q l)

/-- The batch was decoded as it is encoded. -/
def DecodedAsEncoded (bytes : List UInt8) (t : Session) : Prop :=
  t.split = encoded bytes ∧ ExecutesOf (encoded bytes) t

variable {ss : SectorSize} {faults : Nat → Option Fault}

/-! ## What is executed -/

theorem encodedOn_append (q : Nat) (l m : List Instruction) :
    encodedOn q (l ++ m) = encodedOn q l ++ encodedOn q m := by
  simp [encodedOn, opsOn]

theorem executedOn_append (q : Nat) (l m : List Executed) :
    executedOn q (l ++ m) = executedOn q l ++ executedOn q m := by
  simp [executedOn, opsOn]

variable {x : Instruction} {s t : Session} {b : List UInt8}

theorem encodedOn_none (h : x.operation = none) (q : Nat) :
    encodedOn q [x] = [] := by
  simp [encodedOn, opsOn, h]

theorem encodedOn_some {p : Nat} {o : FileOp} (h : x.operation = some (p, o)) (q : Nat)
    (e : UInt32) :
    encodedOn q [x] = executedOn q [⟨p, o, e⟩] := by
  simp [encodedOn, executedOn, opsOn, h]

theorem encodedOn_other {id : UInt32} {params : List UInt8} {q : Nat} (h : q ≠ partitionID id) :
    encodedOn q [⟨id, params⟩] = [] := by
  have hne : partitionID id ≠ q := fun e => h e.symm
  simp only [encodedOn, Instruction.operation, List.filterMap_cons, List.filterMap_nil]
  by_cases hop : opcode id = 0
  · simp [hop, opsOn]
  · cases parseOperation (opcode id) params with
    | op o _ _ => simp [hop, opsOn, hne]
    | truncated => simp [hop, opsOn]
    | unknown => simp [hop, opsOn]

theorem ExecutesOf.note (h : ExecutesOf s.split s) (hx : x.operation = none)
    (hsplit : t.split = s.split ++ [x]) (hwork : SameWork s t) :
    ExecutesOf t.split t := by
  intro q
  rw [hsplit, encodedOn_append, encodedOn_none hx, append_nil, hwork.1, hwork.2]
  exact h q

theorem pass_executesOf (h : ExecutesOf s.split s)
    (ht : pass ss faults s = .next t ∨ pass ss faults s = .stop t) : ExecutesOf t.split t := by
  have hp := pass_passes ss faults s
  rcases ht with ht | ht
  · rw [ht] at hp
    cases hp with
    | generic _ hx _ hsplit hwork => exact h.note hx hsplit hwork
    | @skipped id r _ _ herr =>
      intro q
      show executedOn q s.executed <+: encodedOn q (s.split ++ [⟨id, []⟩]) ∧
        (s.nPartitionErrorStates q = sSuccess →
          executedOn q s.executed = encodedOn q (s.split ++ [⟨id, []⟩]))
      -- an instruction is added for a partition that has an error, of which only the
      -- prefix is claimed
      rw [encodedOn_append]
      refine ⟨(h q).1.trans (List.prefix_append _ _), ?_⟩
      intro hq
      have hne : q ≠ partitionID id := fun e => herr (e ▸ hq)
      rw [encodedOn_other hne, append_nil]
      exact (h q).2 hq
    | @unknown id r _ _ _ _ hx _ hok _ hsplit hexec hstates =>
      intro q
      rw [hsplit, hexec, hstates, encodedOn_append, encodedOn_none hx, append_nil]
      refine ⟨(h q).1, ?_⟩
      intro hq
      by_cases hqp : q = partitionID id
      · exact (h q).2 (hqp ▸ hok)
      · rw [Function.update_of_ne hqp] at hq
        exact (h q).2 hq
    | @executed id e o params r _ _ hx hok _ hsplit hexec hstates =>
      intro q
      rw [hsplit, hexec, hstates, encodedOn_append, executedOn_append, encodedOn_some hx q e]
      by_cases hqp : q = partitionID id
      · rw [(h q).2 (hqp ▸ hok)]
        exact ⟨List.prefix_refl _, fun _ => rfl⟩
      · rw [← encodedOn_some hx q e, encodedOn_other hqp, append_nil, append_nil,
          Function.update_of_ne hqp]
        exact h q
  · rw [ht] at hp
    cases hp with
    | done => exact h
    | ends _ hx hsplit hwork => exact h.note hx hsplit hwork

theorem batch_executesOf {w : Storage} (h : batch ss faults w b = some t) :
    ExecutesOf t.split t := by
  apply loop_induct _ _ _ h
  · intro s s' hs hn
    exact pass_executesOf hs (Or.inl hn)
  · intro s s' hs hn
    exact pass_executesOf hs (Or.inr hn)
  · intro q
    exact ⟨List.prefix_refl _, fun _ => rfl⟩

/-! ## How the buffer is split -/

theorem encoded_skipped {r : List UInt8} {id : UInt32} (hword : readWord b = some (id, r))
    (hop : opcode id ≠ 0) (hparams : HasParams (opcode id) → r.length < 4) :
    encoded b = ⟨id, []⟩ :: encoded r := by
  have hi := instruction_operation hword hop
  by_cases hp : HasParams (opcode id)
  · -- too few bytes for the parameters, and none for another instruction
    have hr := hparams hp
    rw [parseOperation_short hp hr] at hi
    rw [encoded_end hi, encoded_short hr]
  · rcases parseOperation_plain hp with ⟨o, hplain⟩ | hplain
    · rw [hplain] at hi
      exact encoded_cons hi
    · rw [hplain] at hi
      exact encoded_cons hi

theorem encoded_params {r : List UInt8} {id : UInt32} (hword : readWord b = some (id, r))
    (hop : opcode id ≠ 0) (hp : HasParams (opcode id)) {l : List Instruction} (hl : l ≠ []) :
    encoded b ≠ ⟨id, []⟩ :: l := by
  have hi := instruction_operation hword hop
  intro h
  cases hparse : parseOperation (opcode id) r with
  | truncated =>
    rw [hparse] at hi
    rw [encoded_end hi, cons.injEq] at h
    exact hl h.2.symm
  | unknown => exact parseOperation_known hp r hparse
  | op o params r' =>
    rw [hparse] at hi
    rw [encoded_cons hi, cons.injEq, Instruction.mk.injEq] at h
    exact (parseOperation_parses hparse).1 hp h.1.2

theorem pass_split (ht : pass ss faults s = .next t ∨ pass ss faults s = .stop t) :
    ∃ l, t.split = s.split ++ l ∧ (4 ≤ s.rest.length → l ≠ []) := by
  have hp := pass_passes ss faults s
  rcases ht with ht | ht
  · rw [ht] at hp
    cases hp with
    | generic _ _ _ hsplit _ => exact ⟨_, hsplit, by simp⟩
    | skipped _ _ _ => exact ⟨_, rfl, by simp⟩
    | unknown _ _ _ _ _ _ _ hsplit _ _ => exact ⟨_, hsplit, by simp⟩
    | executed _ _ _ _ hsplit _ _ => exact ⟨_, hsplit, by simp⟩
  · rw [ht] at hp
    cases hp with
    | done h =>
      refine ⟨[], by simp, ?_⟩
      intro hlen
      omega
    | ends _ _ hsplit _ => exact ⟨_, hsplit, by simp⟩

theorem loop_split {n : Nat} (h : loop (pass ss faults) n s = some t) :
    ∃ l, t.split = s.split ++ l := by
  apply loop_induct (I := fun u => ∃ l, u.split = s.split ++ l) _ _ _ h
  · intro u u' hu hn
    obtain ⟨l, hl⟩ := hu
    obtain ⟨m, hm, -⟩ := pass_split (Or.inl hn)
    exact ⟨l ++ m, by rw [hm, hl, append_assoc]⟩
  · intro u u' hu hn
    obtain ⟨l, hl⟩ := hu
    obtain ⟨m, hm, -⟩ := pass_split (Or.inr hn)
    exact ⟨l ++ m, by rw [hm, hl, append_assoc]⟩
  · exact ⟨[], by simp⟩

theorem loop_split_ne_nil {n : Nat} (h : loop (pass ss faults) n s = some t)
    (hs : 4 ≤ s.rest.length) : ∃ l, t.split = s.split ++ l ∧ l ≠ [] := by
  cases n with
  | zero => cases h
  | succ n =>
    cases hb : pass ss faults s with
    | stop s' =>
      rw [loop_stop hb, Option.some.injEq] at h
      obtain ⟨l, hl, hne⟩ := pass_split (Or.inr hb)
      exact ⟨l, h ▸ hl, hne hs⟩
    | next s' =>
      rw [loop_next hb] at h
      obtain ⟨l, hl, hne⟩ := pass_split (Or.inl hb)
      obtain ⟨m, hm⟩ := loop_split h
      refine ⟨l ++ m, by rw [hm, hl, append_assoc], ?_⟩
      intro hnil
      exact hne hs (List.append_eq_nil_iff.mp hnil).1

theorem loop_split_iff {n : Nat} (h : loop (pass ss faults) n s = some t) :
    t.split = s.split ++ encoded s.rest ↔ Visits (pass ss faults) SplitOk n s := by
  apply loop_iff_visits (I := fun _ => True) (Q := fun s t => t.split = s.split ++ encoded s.rest)
    _ _ _ trivial h
  · intro s s' _ hG hb
    refine ⟨trivial, ?_⟩
    -- both sides name the same list: the instruction moves from the rest to the split part
    have hmove : s.split ++ encoded s.rest = s'.split ++ encoded s'.rest := by
      have hp := pass_passes ss faults s
      rw [hb] at hp
      cases hp with
      | generic hi _ hrest hsplit _ =>
        rw [encoded_cons hi, hsplit, hrest, append_assoc, singleton_append]
      | @skipped id r hword hop herr =>
        rw [encoded_skipped hword hop (hG id r hword herr)]
        simp [advance]
      | unknown _ hi _ _ _ _ hrest hsplit _ _ =>
        rw [encoded_cons hi, hsplit, hrest, append_assoc, singleton_append]
      | executed hi _ _ hrest hsplit _ _ =>
        rw [encoded_cons hi, hsplit, hrest, append_assoc, singleton_append]
    intro t
    rw [hmove]
  · intro s t _ _ hb
    have hp := pass_passes ss faults s
    rw [hb] at hp
    cases hp with
    | done hlen => rw [encoded_short hlen, append_nil]
    | ends hi _ hsplit _ => rw [encoded_end hi, hsplit]
  · intro n s t _ hG hloop
    -- the word is split off alone, and its parameters are read as an instruction
    obtain ⟨id, r, hword, herr, hparams, hlen⟩ : ∃ id r, readWord s.rest = some (id, r) ∧
        s.nPartitionErrorStates (partitionID id) ≠ sSuccess ∧ HasParams (opcode id) ∧
          4 ≤ r.length := by
      simpa [SplitOk] using hG
    have hop : opcode id ≠ 0 := by
      intro hop
      rw [hop] at hparams
      rcases hparams with h | h | h <;> exact absurd h (by decide)
    have hb : pass ss faults s = .next (s.advance id [] r) := by
      simp only [pass, hword, if_neg hop, partitionInstruction, if_neg herr]
    cases n with
    | zero => cases hloop
    | succ n =>
      rw [loop_next hb] at hloop
      obtain ⟨l, hl, hne⟩ := loop_split_ne_nil hloop hlen
      intro heq
      rw [heq] at hl
      simp only [advance, append_assoc, singleton_append,
        List.append_cancel_left_eq] at hl
      exact encoded_params hword hop hparams hne hl

theorem batch_split_iff {w : Storage} (h : batch ss faults w b = some t) :
    DecodedAsEncoded b t ↔
      Visits (pass ss faults) SplitOk (b.length + 1) (start w b) := by
  rw [← loop_split_iff h]
  constructor
  · intro hd
    exact hd.1
  · intro hsplit
    have hb : t.split = encoded b := hsplit
    refine ⟨hb, ?_⟩
    rw [← hb]
    exact batch_executesOf h

/-- An access outside of the workspace may cut the buffer off behind it, or put another
instruction there. -/
theorem not_split_after {size n : Nat} {l : List Instruction} (t : Session) :
    ¬ ∀ wild, ∃ u, loop (wildPass ss faults size wild) n (t.overwritten wild) = some u ∧
      u.split = l := by
  intro h
  obtain ⟨u₁, h₁, hsplit₁⟩ := h fun s => { s with rest := [] }
  obtain ⟨u₂, h₂, hsplit₂⟩ := h fun s => { s with rest := [0xF0, 0, 0, 0] }
  cases n with
  | zero => cases h₁
  | succ n =>
    cases h₁
    cases h₂
    have hlen : t.split.length = (t.split ++ [Instruction.mk 0xF0 []]).length :=
      congrArg List.length (hsplit₁.trans hsplit₂.symm)
    simp at hlen

/-- A batch is decoded as it is encoded, whatever an access outside of the workspace may do,
exactly when there is no such access and `SplitOk` holds all the time. -/
theorem wildBatch_decoded_iff {w : Storage} :
    (∀ wild, ∃ t, wildBatch ss faults wild w b = some t ∧ DecodedAsEncoded b t) ↔
      Visits (pass ss faults) (AccessInside ss faults w.workspace.length) (b.length + 1)
          (start w b) ∧
        Visits (pass ss faults) SplitOk (b.length + 1) (start w b) := by
  constructor
  · intro h
    obtain ⟨t, ht, hd⟩ := h id
    rw [wildBatch_id] at ht
    refine ⟨?_, (batch_split_iff ht).mp hd⟩
    refine visits_inside (fun _ => not_split_after (l := encoded b)) ?_
    intro wild
    obtain ⟨u, hu, hdu⟩ := h wild
    exact ⟨u, hu, hdu.1⟩
  · intro h wild
    obtain ⟨t, ht⟩ := batch_returns ss faults w b
    exact ⟨t, (wildBatch_eq h.1 wild).trans ht, (batch_split_iff ht).mpr h.2⟩

/-- Two batches that run the same buffer, with the file system doing what it likes in
each: they split it alike, as it is encoded, and execute what they split, exactly when
neither ever skips an instruction that has parameters left in the buffer. This is so
whatever an access outside of the workspace may do, and the condition has that there is
none. -/
theorem decoding_iff (ss : SectorSize) (w : Storage) (sInstructions : List UInt8) (size : UInt32)
    (faults₁ faults₂ : Nat → Option Fault) :
    (∀ wild₁ wild₂, ∃ t₁ t₂,
        wildBatch ss faults₁ wild₁ w (instructionBytes sInstructions size) = some t₁ ∧
        wildBatch ss faults₂ wild₂ w (instructionBytes sInstructions size) = some t₂ ∧
        t₁.split = t₂.split ∧
        DecodedAsEncoded (instructionBytes sInstructions size) t₁ ∧
        DecodedAsEncoded (instructionBytes sInstructions size) t₂) ↔
      (Visits (pass ss faults₁) (AccessInside ss faults₁ w.workspace.length)
          ((instructionBytes sInstructions size).length + 1)
          (start w (instructionBytes sInstructions size)) ∧
        Visits (pass ss faults₁) SplitOk ((instructionBytes sInstructions size).length + 1)
          (start w (instructionBytes sInstructions size))) ∧
      Visits (pass ss faults₂) (AccessInside ss faults₂ w.workspace.length)
          ((instructionBytes sInstructions size).length + 1)
          (start w (instructionBytes sInstructions size)) ∧
        Visits (pass ss faults₂) SplitOk ((instructionBytes sInstructions size).length + 1)
          (start w (instructionBytes sInstructions size)) := by
  generalize instructionBytes sInstructions size = b
  rw [← wildBatch_decoded_iff, ← wildBatch_decoded_iff]
  constructor
  · intro h
    refine ⟨?_, ?_⟩
    · intro wild
      obtain ⟨t₁, -, h₁, -, -, hd₁, -⟩ := h wild wild
      exact ⟨t₁, h₁, hd₁⟩
    · intro wild
      obtain ⟨-, t₂, -, h₂, -, -, hd₂⟩ := h wild wild
      exact ⟨t₂, h₂, hd₂⟩
  · intro h wild₁ wild₂
    obtain ⟨t₁, h₁, hd₁⟩ := h.1 wild₁
    obtain ⟨t₂, h₂, hd₂⟩ := h.2 wild₂
    exact ⟨t₁, t₂, h₁, h₂, hd₁.1.trans hd₂.1.symm, hd₁, hd₂⟩

/-- CREATE on partition 1, then READ of sector 0x21 of partition 1. -/
def createThenRead : List UInt8 :=
  instructionBytes [0x11, 0, 0, 0, 0x13, 0, 0, 0, 0x21, 0, 0, 0, 0, 0, 0, 0] 16

/-- When the CREATE fails, the sector number of the skipped READ is executed: it reads
CREATE on partition 2. Neither run leaves the workspace. -/
theorem decoding_diverges :
    (∀ wild, (wildBatch ⟨512, Or.inl rfl⟩ (fun _ => none) wild noStorage createThenRead).map
        (fun t => (t.split, t.executed.map (·.partition))) =
        some ([⟨0x11, []⟩, ⟨0x13, [0x21, 0, 0, 0, 0, 0, 0, 0]⟩], [1, 1])) ∧
      (∀ wild, (wildBatch ⟨512, Or.inl rfl⟩ (fun _ => some (.first .enospc)) wild noStorage
        createThenRead).map (fun t => (t.split, t.executed.map (·.partition))) =
        some ([⟨0x11, []⟩, ⟨0x13, []⟩, ⟨0x21, []⟩, ⟨0, []⟩], [1, 2])) ∧
      ∀ wild₁ wild₂, ¬ ∃ t₁ t₂,
        wildBatch ⟨512, Or.inl rfl⟩ (fun _ => none) wild₁ noStorage createThenRead = some t₁ ∧
        wildBatch ⟨512, Or.inl rfl⟩ (fun _ => some (.first .enospc)) wild₂ noStorage
          createThenRead = some t₂ ∧ t₁.split = t₂.split := by
  refine ⟨fun _ => rfl, fun _ => rfl, ?_⟩
  intro wild₁ wild₂ h
  obtain ⟨t₁, t₂, h₁, h₂, hsplit⟩ := h
  cases h₁
  cases h₂
  have hlists : [Instruction.mk 0x11 [], ⟨0x13, [0x21, 0, 0, 0, 0, 0, 0, 0]⟩] =
      [⟨0x11, []⟩, ⟨0x13, []⟩, ⟨0x21, []⟩, ⟨0, []⟩] := hsplit
  exact absurd hlists (by decide)

end Omap4Hal.Security

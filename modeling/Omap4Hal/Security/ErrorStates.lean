import Omap4Hal.Security.Delegation

/- The error states that the instruction loop reports. An operation is executed only
   on a partition without an error, so nothing is done on a partition once an operation
   on it has failed. What is reported is the result of the last operation, with one
   exception: the inner switch has no default, and an opcode it does not know stores
   whatever `nError` was left at by an earlier instruction. `errorStates_iff`: the
   report is right exactly when no such opcode meets an `nError` that is not success, and
   nothing is read to a place outside of the workspace, where the error states lie. -/
namespace Omap4Hal.Security
open Lib
open Function (update update_eq_self update_of_ne update_self)

/-- Nothing is executed on a partition after a failure. -/
def Disciplined (l : List Executed) : Prop :=
  l.Pairwise fun x y => x.partition = y.partition → x.nError = sSuccess

/-- The result of the last operation on a partition, success if there was none. -/
def lastResult (p : Nat) (l : List Executed) : UInt32 :=
  ((l.filter fun x => x.partition = p).getLast?.map (·.nError)).getD sSuccess

/-- Every partition's error state is the result of the last operation on it. -/
def Reported (t : Session) : Prop :=
  ∀ p, t.nPartitionErrorStates p = lastResult p t.executed

/-- An opcode that the switch does not have, on a partition without an error, finds
`nError` at success. -/
def OpcodeOk (s : Session) : Prop :=
  ∀ id r, readWord s.rest = some (id, r) → opcode id ≠ 0 →
    parseOperation (opcode id) r = .unknown →
    s.nPartitionErrorStates (partitionID id) = sSuccess → s.nError = sSuccess

variable {ss : SectorSize} {faults : Nat → Option Fault}

theorem lastResult_append (p : Nat) (l : List Executed) (x : Executed) :
    lastResult p (l ++ [x]) = if x.partition = p then x.nError else lastResult p l := by
  rw [lastResult, List.filter_append]
  by_cases h : x.partition = p
  · simp [h]
  · simp [h, lastResult]

/-! ## One pass -/

/-- What a predicate on the operations executed and the error states has to survive: an
unknown opcode, and an operation, each on a partition without an error. Nothing
else a pass does touches either. -/
theorem pass_work {P : List Executed → (Nat → UInt32) → Prop} {s t : Session}
    (h : P s.executed s.nPartitionErrorStates)
    (hunknown : ∀ id r, readWord s.rest = some (id, r) → opcode id ≠ 0 →
      parseOperation (opcode id) r = .unknown →
      s.nPartitionErrorStates (partitionID id) = sSuccess →
      P s.executed (update s.nPartitionErrorStates (partitionID id) s.nError))
    (hexec : ∀ p o e, s.nPartitionErrorStates p = sSuccess →
      P (s.executed ++ [⟨p, o, e⟩]) (update s.nPartitionErrorStates p e))
    (ht : pass ss faults s = .next t ∨ pass ss faults s = .stop t) :
    P t.executed t.nPartitionErrorStates := by
  have hp := pass_passes ss faults s
  rcases ht with ht | ht
  · rw [ht] at hp
    cases hp with
    | generic _ _ _ _ hwork =>
      rw [hwork.1, hwork.2]
      exact h
    | skipped _ _ _ => exact h
    | @unknown id r _ hword _ hun _ hop hok _ _ hsame hstates =>
      rw [hsame, hstates]
      exact hunknown id r hword hop hun hok
    | @executed id e o _ _ _ _ _ hok _ _ happ hstates =>
      rw [happ, hstates]
      exact hexec (partitionID id) o e hok
  · rw [ht] at hp
    cases hp with
    | done => exact h
    | ends _ _ _ hwork =>
      rw [hwork.1, hwork.2]
      exact h

/-! ## The discipline -/

/-- What holds of every state: on a partition without an error every operation has
succeeded. -/
structure DisciplineInv (l : List Executed) (states : Nat → UInt32) : Prop where
  disciplined : Disciplined l
  succeeded : ∀ x ∈ l, states x.partition = sSuccess → x.nError = sSuccess

theorem DisciplineInv.unknown {l : List Executed} {states : Nat → UInt32} {p : Nat}
    (h : DisciplineInv l states) (hok : states p = sSuccess) (e : UInt32) :
    DisciplineInv l (update states p e) := by
  refine ⟨h.disciplined, ?_⟩
  intro x hx hstate
  apply h.succeeded x hx
  by_cases hxp : x.partition = p
  · rw [hxp]
    exact hok
  · rwa [update_of_ne hxp] at hstate

theorem DisciplineInv.execute {l : List Executed} {states : Nat → UInt32} {p : Nat}
    (h : DisciplineInv l states) (hok : states p = sSuccess) (o : FileOp) (e : UInt32) :
    DisciplineInv (l ++ [⟨p, o, e⟩]) (update states p e) := by
  constructor
  · rw [Disciplined, List.pairwise_append]
    refine ⟨h.disciplined, List.pairwise_singleton _ _, ?_⟩
    intro x hx y hy hxy
    rw [List.mem_singleton] at hy
    rw [hy] at hxy
    exact h.succeeded x hx (hxy ▸ hok)
  · intro x hx hstate
    rw [List.mem_append, List.mem_singleton] at hx
    rcases hx with hx | hx
    · exact (h.unknown hok e).succeeded x hx hstate
    · rw [hx, update_self] at hstate
      rw [hx]
      exact hstate

theorem batch_disciplined {w : Storage} {b : List UInt8} {t : Session}
    (h : batch ss faults w b = some t) : Disciplined t.executed := by
  have hpass : ∀ s s', DisciplineInv s.executed s.nPartitionErrorStates →
      pass ss faults s = .next s' ∨ pass ss faults s = .stop s' →
      DisciplineInv s'.executed s'.nPartitionErrorStates := by
    intro s s' hs
    apply pass_work hs
    · intro id r _ _ _ hok
      exact hs.unknown hok s.nError
    · intro p o e hok
      exact hs.execute hok o e
  have hinv : DisciplineInv t.executed t.nPartitionErrorStates := by
    apply loop_induct (I := fun s => DisciplineInv s.executed s.nPartitionErrorStates) _ _ _ h
    · intro s s' hs hn
      exact hpass s s' hs (Or.inl hn)
    · intro s s' hs hn
      exact hpass s s' hs (Or.inr hn)
    · refine ⟨List.Pairwise.nil, ?_⟩
      intro x hx
      cases hx
  exact hinv.disciplined

/-! ## The reported error states -/

theorem pass_reported {s t : Session} (h : Reported s) (hG : OpcodeOk s)
    (ht : pass ss faults s = .next t ∨ pass ss faults s = .stop t) : Reported t := by
  apply pass_work (P := fun l states => ∀ p, states p = lastResult p l) h _ _ ht
  · intro id r hword hop hun hok
    -- the stale result is success, which the state already was
    rw [hG id r hword hop hun hok, ← hok, update_eq_self]
    exact h
  · intro q o e hok p
    rw [lastResult_append]
    by_cases hqp : q = p
    · rw [if_pos hqp, hqp, update_self]
    · rw [if_neg hqp, update_of_ne (fun e => hqp e.symm)]
      exact h p

/-- A partition reports an error that no operation on it has returned. -/
def Misreported (p : Nat) (s : Session) : Prop :=
  s.nPartitionErrorStates p ≠ sSuccess ∧ lastResult p s.executed = sSuccess

theorem pass_misreported {p : Nat} {s t : Session} (h : Misreported p s)
    (ht : pass ss faults s = .next t ∨ pass ss faults s = .stop t) : Misreported p t := by
  -- whatever is done, is done on a partition without an error, so not on this one
  have hother : ∀ q, s.nPartitionErrorStates q = sSuccess → p ≠ q :=
    fun q hok e => h.1 (e ▸ hok)
  apply pass_work (P := fun l states => states p ≠ sSuccess ∧ lastResult p l = sSuccess) h _ _ ht
  · intro id r _ _ _ hok
    rw [update_of_ne (hother _ hok)]
    exact h
  · intro q o e hok
    rw [update_of_ne (hother q hok), lastResult_append,
      if_neg (fun e => hother q hok e.symm)]
    exact h

theorem unknown_misreported {n : Nat} {s t : Session} (hs : Reported s) (hG : ¬ OpcodeOk s)
    (h : loop (pass ss faults) n s = some t) : ¬ Reported t := by
  obtain ⟨id, r, hword, hop, hun, hok, herr⟩ : ∃ id r, readWord s.rest = some (id, r) ∧
      opcode id ≠ 0 ∧ parseOperation (opcode id) r = .unknown ∧
        s.nPartitionErrorStates (partitionID id) = sSuccess ∧ s.nError ≠ sSuccess := by
    simpa [OpcodeOk] using hG
  have hb : pass ss faults s = .next { s.advance id [] r with
      nPartitionErrorStates :=
        update s.nPartitionErrorStates (partitionID id) s.nError } := by
    simp only [pass, hword, if_neg hop, partitionInstruction, if_pos hok, hun]
  cases n with
  | zero => cases h
  | succ n =>
    rw [loop_next hb] at h
    have hmis : Misreported (partitionID id) t := by
      apply loop_induct _ _ _ h
      · intro u u' hu hn
        exact pass_misreported hu (Or.inl hn)
      · intro u u' hu hn
        exact pass_misreported hu (Or.inr hn)
      · refine ⟨?_, ?_⟩
        · show update s.nPartitionErrorStates (partitionID id) s.nError
            (partitionID id) ≠ sSuccess
          rw [update_self]
          exact herr
        · exact (hs (partitionID id)).symm.trans hok
    intro ht
    exact hmis.1 ((ht (partitionID id)).trans hmis.2)

theorem batch_reported_iff {w : Storage} {b : List UInt8} {t : Session}
    (ht : batch ss faults w b = some t) :
    Reported t ↔ Visits (pass ss faults) OpcodeOk (b.length + 1) (Session.start w b) := by
  apply loop_iff_visits (I := Reported) (Q := fun _ t => Reported t) _ _ _ _ ht
  · intro s s' hs hG hb
    exact ⟨pass_reported hs hG (Or.inl hb), fun _ => Iff.rfl⟩
  · intro s t hs hG hb
    exact pass_reported hs hG (Or.inr hb)
  · intro n s t hs hG hloop
    exact unknown_misreported hs hG hloop
  · intro p
    rfl

theorem not_reported_after {size n : Nat} (t : Session) :
    ¬ ∀ wild, ∃ u, loop (wildPass ss faults size wild) n (t.overwritten wild) = some u ∧
      Reported u := by
  intro h
  obtain ⟨u, hu, hreported⟩ := h fun s => { s with
    rest := []
    nPartitionErrorStates := fun p => lastResult p s.executed + 1 }
  cases n with
  | zero => cases hu
  | succ n =>
    cases hu
    have hzero : lastResult 0 t.executed + 1 = lastResult 0 t.executed := hreported 0
    simp at hzero

/-- In every batch that keeps to the workspace, no operation follows a failed one on its
partition. The error states reported at its end are then the results of the last
operations exactly when no unknown opcode, on a partition without an error, has found an
error in `nError`. No less is needed where an access outside of the workspace may do
anything. -/
theorem errorStates_iff (ss : SectorSize) (faults : Nat → Option Fault) (w : Storage)
    (sInstructions : List UInt8) (size : UInt32) :
    (Visits (pass ss faults) (AccessInside ss faults w.workspace.length)
        ((instructionBytes sInstructions size).length + 1)
        (Session.start w (instructionBytes sInstructions size)) →
      ∀ wild, ∃ t, wildBatch ss faults wild w (instructionBytes sInstructions size) = some t ∧
        Disciplined t.executed) ∧
    ((∀ wild, ∃ t, wildBatch ss faults wild w (instructionBytes sInstructions size) = some t ∧
        Disciplined t.executed ∧ Reported t) ↔
      Visits (pass ss faults) (AccessInside ss faults w.workspace.length)
          ((instructionBytes sInstructions size).length + 1)
          (Session.start w (instructionBytes sInstructions size)) ∧
        Visits (pass ss faults) OpcodeOk ((instructionBytes sInstructions size).length + 1)
          (Session.start w (instructionBytes sInstructions size))) := by
  generalize instructionBytes sInstructions size = b
  obtain ⟨t, ht⟩ := batch_returns ss faults w b
  refine ⟨?_, ?_, ?_⟩
  · intro hin wild
    exact ⟨t, (wildBatch_eq hin wild).trans ht, batch_disciplined ht⟩
  · intro h
    obtain ⟨u, hu, -, hreported⟩ := h id
    rw [wildBatch_id] at hu
    refine ⟨?_, (batch_reported_iff hu).mp hreported⟩
    refine visits_inside (fun _ => not_reported_after) ?_
    intro wild
    obtain ⟨u, hu, -, hreported⟩ := h wild
    exact ⟨u, hu, hreported⟩
  · intro h wild
    exact ⟨t, (wildBatch_eq h.1 wild).trans ht, batch_disciplined ht,
      (batch_reported_iff ht).mpr h.2⟩

/-- CREATE on partition 1, then opcode 9 on partition 2. -/
def createThenUnknown : List UInt8 := instructionBytes [0x11, 0, 0, 0, 0x29, 0, 0, 0] 8

/-- When the CREATE fails, partition 2 reports its error. -/
theorem errorStates_leak :
    (∀ wild, (wildBatch ⟨512, Or.inl rfl⟩ (fun _ => some (.first .enospc)) wild noStorage
        createThenUnknown).map (fun t => (t.nPartitionErrorStates 2, t.executed)) =
        some (sErrorStorageNoSpace, [⟨1, .create, sErrorStorageNoSpace⟩])) ∧
      ∀ wild, ¬ ∃ t, wildBatch ⟨512, Or.inl rfl⟩ (fun _ => some (.first .enospc)) wild noStorage
        createThenUnknown = some t ∧ Disciplined t.executed ∧ Reported t := by
  refine ⟨fun _ => rfl, ?_⟩
  intro wild h
  obtain ⟨t, ht, -, hreported⟩ := h
  cases ht
  have hstate : sErrorStorageNoSpace = sSuccess := hreported 2
  exact absurd hstate (by decide)

end Omap4Hal.Security

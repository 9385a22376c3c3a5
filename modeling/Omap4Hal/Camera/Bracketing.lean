import Mathlib.Data.List.Rotate
import Mathlib.Data.UInt
import Omap4Hal.Lib.Ledger
import Omap4Hal.Lib.Loop
import Omap4Hal.Lib.Run

/- Temporal bracketing (OMXCapture.cpp and the image port of `OMXCameraAdapterFillBufferDone`).
   The component takes pictures into a ring of image buffers without end. An array says which
   of them are queued with it; the one that was queued last is where the ring starts when
   `startImageCapture` sends the pictures taken so far and goes on with a normal burst.

   `startBracketing` is a command and runs under the lock of the adapter, as
   `stopBracketing` does, but `mBracketingLock` is held only in parts of it. A buffer that
   comes back before `mBracketingEnabled` is set, or before the adapter is in a capture
   state, is not counted. `bracketing_iff` says what has to be excluded for the array to
   agree with the component and for every array to be deleted.

   The component is in `OMX_StateExecuting`. -/
namespace Omap4Hal.Camera.Bracketing
open Lib
open List (count_pos_iff length_range length_set replicate)

/-! ## State -/

/-- How far a `startBracketing` has come: past the check for `mBracketingEnabled`, in
`startImageCapture` with the first buffers queued, or back from it. -/
inductive Phase where
  | idle
  | checked (range : Int)
  | capturing (queued : Nat)
  | captured (ret : Int)
  deriving DecidableEq

/-- `held` are the buffers that the component has. An array of flags has a number;
`allocated` and `deleted` are the numbers of the arrays so far. -/
structure Ring where
  phase : Phase := .idle
  bracketingEnabled : Bool := false
  bracketingRange : UInt32 := 0
  bracketingBuffersQueued : Option (Nat × List Bool) := none
  bracketingBuffersQueuedCount : Int := 0
  lastBracketingBufferIdx : Nat := 0
  capturedFrames : UInt32
  held : List Bool
  allocated : List Nat := []
  deleted : List Nat := []
  deriving DecidableEq

inductive FrameType where
  | image
  | raw
  deriving DecidableEq

/-! ## Functions -/

/-- `OMX_FillThisBuffer` on the image port. -/
def Ring.fill (s : Ring) (index : Nat) : Ring := { s with held := s.held.set index true }

/-- `returnFrame` of a buffer nobody else holds. `fillThisBuffer` looks for a raw frame among
the buffers of the video port. -/
def Ring.returnFrame (s : Ring) (index : Nat) (typeOfFrame : FrameType) (accepted : Bool) : Ring :=
  if typeOfFrame = .image ∧ accepted = true then s.fill index else s

def doBracketing (n : Nat) (s : Ring) (currentBufferIdx : Nat) (typeOfFrame : FrameType)
    (accepted : Bool) : Option Ring :=
  match s.bracketingBuffersQueued with
  | none => none
  | some (a, flags) =>
    let flags := flags.set currentBufferIdx false
    let count := s.bracketingBuffersQueuedCount - 1
    if 0 ≥ count then
      let nextBufferIdx := (currentBufferIdx + 1) % n
      some ({ s with
        bracketingBuffersQueued := some (a, flags.set nextBufferIdx true)
        bracketingBuffersQueuedCount := count + 1
        lastBracketingBufferIdx := nextBufferIdx }.returnFrame nextBufferIdx typeOfFrame accepted)
    else some { s with
      bracketingBuffersQueued := some (a, flags)
      bracketingBuffersQueuedCount := count }

/-- One pass of the loop of `sendBracketFrames`, with the buffers sent so far. -/
def sendPass (n last : Nat) (flags : List Bool) (s : Nat × List Nat) : Flow (Nat × List Nat) :=
  let current := (s.1 + 1) % n
  let sent := if flags[current]? = some false then s.2 ++ [current] else s.2
  if current ≠ last then .next (current, sent) else .stop (current, sent)

/-- The buffers that are sent; `none` if the loop has no end. -/
def sendBracketFrames (n : Nat) (s : Ring) : Option (List Nat) :=
  match s.bracketingBuffersQueued with
  | none => none
  | some (_, flags) =>
    (loop (sendPass n s.lastBracketingBufferIdx flags) n (s.lastBracketingBufferIdx, [])).map (·.2)

/-- The part of `startImageCapture` for a bracketing that is active. -/
def startBurst (n : Nat) (s : Ring) : Option Ring :=
  if s.bracketingEnabled = false then none
  else (sendBracketFrames n s).map fun sent =>
    let bracketingSent := UInt32.ofNat sent.length
    { s with
      bracketingEnabled := false
      capturedFrames := if bracketingSent < s.bracketingRange - 1 then
        s.bracketingRange + ((s.bracketingRange - 1) - bracketingSent) else s.bracketingRange }

def stopBracketing (s : Ring) : Ring :=
  { s with
    deleted := s.deleted ++ (s.bracketingBuffersQueued.map (·.1)).toList
    bracketingBuffersQueued := none
    bracketingEnabled := false
    bracketingBuffersQueuedCount := 0
    lastBracketingBufferIdx := 0 }

/-- The array of `startBracketing`, if there is memory for it. -/
def arm (n : Nat) (s : Ring) (range : Int) (memory : Bool) : Ring :=
  if memory then
    { s with
      phase := .capturing 0
      bracketingRange := UInt32.ofInt range
      bracketingBuffersQueued := some (s.allocated.length, replicate n true)
      bracketingBuffersQueuedCount := n
      lastBracketingBufferIdx := n - 1
      allocated := s.allocated ++ [s.allocated.length] }
  else { s with
    phase := .idle, bracketingRange := UInt32.ofInt range, bracketingBuffersQueued := none }

/-- A buffer of the image port comes back. `captureActive` says whether the state that the
callback has read is a capture state. -/
def fillBufferDone (n : Nat) (s : Ring) (index : Nat) (captureActive : Bool)
    (typeOfFrame : FrameType) (accepted : Bool) : Option Ring :=
  let s := { s with held := s.held.set index false }
  if captureActive = false then some s
  else if s.bracketingEnabled then doBracketing n s index typeOfFrame accepted
  else if 1 > s.capturedFrames then some s
  else some { s with capturedFrames := s.capturedFrames - 1 }

/-! ## Runs -/

/-- `startBracketing` goes through the steps `startBracketing`, `arm`, `queue` (as often as
buffers are queued), `captured` and `enable`; the other steps come in between where the
locks permit it. -/
inductive Step where
  | startBracketing (range : Int)
  | arm (memory : Bool)
  | queue (accepted : Bool)
  | captured (ret : Int)
  | enable
  | stopBracketing
  | startBurst
  | fillBufferDone (index : Nat) (captureActive : Bool) (typeOfFrame : FrameType)
      (accepted : Bool)

/-- `none` is a step that cannot happen. The buffers are queued in order; without an error
`startImageCapture` has queued all of them, or none if the capture is not configured. -/
def next (n : Nat) (s : Ring) : Step → Option Ring
  | .startBracketing range =>
    if s.phase ≠ .idle then none
    else if s.bracketingEnabled ∨ n = 0 then some s
    else some { s with phase := .checked range }
  | .arm memory =>
    match s.phase with
    | .checked range => some (arm n s range memory)
    | _ => none
  | .queue accepted =>
    match s.phase with
    | .capturing k =>
      if n ≤ k then none
      else if accepted then some { s.fill k with phase := .capturing (k + 1) }
      else some { s with phase := .captured (-1) }
    | _ => none
  | .captured ret =>
    match s.phase with
    | .capturing k =>
      if k = 0 ∨ k = n ∨ ret ≠ 0 then some { s with phase := .captured ret } else none
    | _ => none
  | .enable =>
    match s.phase with
    | .captured ret => some { s with phase := .idle, bracketingEnabled := ret = 0 }
    | _ => none
  | .stopBracketing => if s.phase ≠ .idle then none else some (stopBracketing s)
  | .startBurst => startBurst n s
  | .fillBufferDone index captureActive typeOfFrame accepted =>
    if s.held[index]? = some true then fillBufferDone n s index captureActive typeOfFrame accepted
    else none

/-- No buffer is with the component, and no array is there. -/
def start (n : Nat) (capturedFrames : UInt32) : Ring :=
  { capturedFrames := capturedFrames, held := replicate n false }

/-! ## What is to hold -/

/-- The array says which buffers the component has, the count says how many, and it has one. -/
def Agrees (s : Ring) : Prop :=
  ∃ a, s.bracketingBuffersQueued = some (a, s.held) ∧
    s.bracketingBuffersQueuedCount = s.held.count true ∧ true ∈ s.held

/-- The array that is in use. -/
def Ring.current (s : Ring) : List Nat := (s.bracketingBuffersQueued.map (·.1)).toList

structure Sound (s : Ring) : Prop where
  agrees : s.bracketingEnabled = true → Agrees s
  arrays : Balanced s.allocated s.deleted s.current

/-- The indices of the ring from behind the last one on. -/
def ring (n last : Nat) : List Nat := (List.range n).rotate (last + 1)

/-- A bracketing that is left for a burst sends the buffers that the component does not
have, each once and in the order of the ring. -/
def SendsRight (n : Nat) (s : Ring) : Step → Prop
  | .startBurst => s.bracketingEnabled = true →
    ∃ sent, sendBracketFrames n s = some sent ∧ sent.Nodup ∧
      sent.Sublist (ring n s.lastBracketingBufferIdx) ∧
      ∀ i, i ∈ sent ↔ i < n ∧ s.held[i]? = some false
  | _ => True

/-- No array is in use when one is allocated. All buffers are with the component when
bracketing is enabled. A buffer that comes back while it is enabled does so in a capture
state; if it was the last one, it is an image frame and the component accepts the next one. -/
def StepOk (s : Ring) : Step → Prop
  | .arm _ => (∃ range, s.phase = .checked range) → s.bracketingBuffersQueued = none
  | .enable => s.phase = .captured 0 → ∀ b ∈ s.held, b = true
  | .fillBufferDone index captureActive typeOfFrame accepted =>
    s.bracketingEnabled = true → s.held[index]? = some true →
      captureActive = true ∧
        (s.bracketingBuffersQueuedCount ≤ 1 → typeOfFrame = .image ∧ accepted = true)
  | _ => True

/-! ## The loop -/

variable {n last : Nat} {flags : List Bool}

variable {k : Nat}

theorem ring_drop (hk : k < n) :
    (ring n last).drop k = (last + k + 1) % n :: (ring n last).drop (k + 1) := by
  have hlength : k < (List.range n).length := by rwa [length_range]
  have hget : (ring n last)[k]? = some ((last + k + 1) % n) := by
    rw [ring, List.getElem?_rotate hlength, length_range,
      List.getElem?_range (Nat.mod_lt _ (by omega))]
    congr 2
    omega
  obtain ⟨hlt, hget⟩ := List.getElem?_eq_some_iff.mp hget
  rw [List.drop_eq_getElem_cons hlt, hget]

theorem sendPass_eq (flags : List Bool) (hlast : last < n) (hk : k < n) (sent : List Nat) :
    sendPass n last flags ((last + k) % n, sent) =
      if k + 1 < n then
        .next ((last + (k + 1)) % n,
          sent ++ [(last + k + 1) % n].filter fun i => flags[i]? = some false)
      else .stop (last, sent ++ [(last + k + 1) % n].filter fun i => flags[i]? = some false) := by
  have hcurrent : ((last + k) % n + 1) % n = (last + k + 1) % n := Nat.mod_add_mod _ _ _
  have hsent : (if flags[(last + k + 1) % n]? = some false then sent ++ [(last + k + 1) % n]
      else sent) = sent ++ [(last + k + 1) % n].filter fun i => flags[i]? = some false := by
    rw [List.filter_cons, List.filter_nil]
    by_cases hflag : flags[(last + k + 1) % n]? = some false
    · simp [hflag]
    · simp [hflag]
  rw [sendPass]
  simp only [hcurrent, hsent]
  by_cases hend : k + 1 < n
  · have hne : (last + k + 1) % n ≠ last := by
      rcases Nat.lt_or_ge (last + k + 1) n with hlt | hge
      · rw [Nat.mod_eq_of_lt hlt]
        omega
      · rw [Nat.mod_eq_sub_mod hge, Nat.mod_eq_of_lt (by omega)]
        omega
    rw [if_pos hne, if_pos hend]
    rfl
  · have heq : (last + k + 1) % n = last := by
      have hk' : last + k + 1 = last + n := by omega
      rw [hk', Nat.add_mod_right, Nat.mod_eq_of_lt hlast]
    rw [if_neg (not_not_intro heq), if_neg hend, heq]

theorem loop_ring (flags : List Bool) (hlast : last < n) (hk : k < n) (sent : List Nat) :
    loop (sendPass n last flags) (n - k) ((last + k) % n, sent) =
      some (last, sent ++ ((ring n last).drop k).filter fun i => flags[i]? = some false) := by
  obtain ⟨d, hd⟩ : ∃ d, n = k + (d + 1) := ⟨n - k - 1, by omega⟩
  have hpasses : n - k = d + 1 := by omega
  rw [hpasses, ring_drop hk]
  clear hpasses
  induction d generalizing k sent with
  | zero =>
    have hnil : (ring n last).drop (k + 1) = [] := by
      apply List.drop_eq_nil_of_le
      rw [ring, List.length_rotate, length_range]
      omega
    have hpass := sendPass_eq flags hlast hk sent
    rw [if_neg (by omega)] at hpass
    rw [loop_stop hpass, hnil]
  | succ d ih =>
    have hpass := sendPass_eq flags hlast hk sent
    rw [if_pos (by omega)] at hpass
    rw [loop_next hpass, ih (by omega) _ (by omega), ← ring_drop (by omega), List.append_assoc,
      ← List.filter_append]
    rfl

theorem ring_perm (n last : Nat) : (ring n last).Perm (List.range n) := List.rotate_perm _ _

theorem sendBracketFrames_eq {s : Ring} {a : Nat}
    (hflags : s.bracketingBuffersQueued = some (a, flags))
    (hlast : s.lastBracketingBufferIdx < n) :
    sendBracketFrames n s =
      some ((ring n s.lastBracketingBufferIdx).filter fun i => flags[i]? = some false) := by
  have hloop := loop_ring flags hlast (Nat.zero_lt_of_lt hlast) []
  rw [Nat.add_zero, Nat.mod_eq_of_lt hlast, Nat.sub_zero, List.drop_zero, List.nil_append] at hloop
  rw [sendBracketFrames, hflags]
  simp only [hloop, Option.map_some]

theorem count_set_false {l : List Bool} {i : Nat} (h : l[i]? = some true) :
    ((l.set i false).count true : Int) = l.count true - 1 := by
  obtain ⟨hi, hget⟩ := List.getElem?_eq_some_iff.mp h
  have hpos : 0 < l.count true := count_pos_iff.mpr (hget ▸ List.getElem_mem hi)
  have hset := List.count_set (a := false) (b := true) hi
  simp only [hget, beq_self_eq_true, if_true, Bool.false_eq_true, beq_iff_eq, if_false] at hset
  omega

theorem count_set_true {l : List Bool} {i : Nat} (hi : i < l.length) (h : l.count true = 0) :
    (l.set i true).count true = 1 := by
  have hget : l[i] = false := by
    have hnone := List.count_eq_zero.mp h
    cases hl : l[i] with
    | true => exact absurd (hl ▸ List.getElem_mem hi) hnone
    | false => rfl
  have hset := List.count_set (a := true) (b := true) hi
  simp only [hget, Bool.false_eq_true, beq_iff_eq, if_false, beq_self_eq_true, if_true] at hset
  omega

/-! ## One step -/

/-- What holds between two steps. While a `startBracketing` is under way nothing is enabled,
and its array is as it was made. -/
structure Kept (n : Nat) (s : Ring) : Prop extends Sound s where
  length : s.held.length = n
  last : s.bracketingEnabled = true → s.lastBracketingBufferIdx < n
  starting : s.phase ≠ .idle → s.bracketingEnabled = false ∧ 0 < n
  armed : (∃ k, s.phase = .capturing k) ∨ (∃ ret, s.phase = .captured ret) →
    (∃ a, s.bracketingBuffersQueued = some (a, replicate n true)) ∧
      s.bracketingBuffersQueuedCount = n ∧ s.lastBracketingBufferIdx = n - 1

theorem not_capturing {phase : Phase} {p : Prop} (hidle : phase = .idle) :
    (∃ k, phase = .capturing k) ∨ (∃ ret, phase = .captured ret) → p := by
  subst hidle
  rintro (⟨k, hk⟩ | ⟨ret, hret⟩)
  · exact absurd hk nofun
  · exact absurd hret nofun

theorem Kept.of_disabled {s : Ring} (henabled : s.bracketingEnabled = false)
    (harrays : Balanced s.allocated s.deleted s.current) (hlength : s.held.length = n)
    (hpos : s.phase ≠ .idle → 0 < n)
    (harmed : (∃ k, s.phase = .capturing k) ∨ (∃ ret, s.phase = .captured ret) →
      (∃ a, s.bracketingBuffersQueued = some (a, replicate n true)) ∧
        s.bracketingBuffersQueuedCount = n ∧ s.lastBracketingBufferIdx = n - 1) : Kept n s := by
  have hnot : s.bracketingEnabled ≠ true := by simp [henabled]
  exact ⟨⟨fun h => absurd h hnot, harrays⟩, hlength, fun h => absurd h hnot,
    fun h => ⟨henabled, hpos h⟩, harmed⟩

variable {s s' : Ring}

theorem Kept.arm (h : Kept n s) {range : Int} (hphase : s.phase = .checked range)
    (hnone : s.bracketingBuffersQueued = none) (memory : Bool) :
    Kept n (arm n s range memory) := by
  obtain ⟨hdisabled, hpos⟩ := h.starting (by simp [hphase])
  have harrays : Balanced s.allocated s.deleted [] := by
    have := h.arrays
    rwa [Ring.current, hnone] at this
  rw [Bracketing.arm]
  cases memory with
  | true =>
    rw [if_pos rfl]
    apply Kept.of_disabled
    · exact hdisabled
    · exact harrays.take s.allocated.length
    · exact h.length
    · exact fun _ => hpos
    · exact fun _ => ⟨⟨_, rfl⟩, rfl, rfl⟩
  | false =>
    rw [if_neg Bool.false_ne_true]
    apply Kept.of_disabled
    · exact hdisabled
    · exact harrays
    · exact h.length
    · exact fun hne => absurd rfl hne
    · exact not_capturing rfl

theorem Kept.fill (h : Kept n s) (hphase : s.phase = .capturing k) :
    Kept n { s.fill k with phase := .capturing (k + 1) } := by
  obtain ⟨hdisabled, hpos⟩ := h.starting (by simp [hphase])
  apply Kept.of_disabled
  · exact hdisabled
  · exact h.arrays
  · rw [← h.length]
    exact length_set
  · exact fun _ => hpos
  · exact fun _ => h.armed (.inl ⟨k, hphase⟩)

theorem Kept.leaveCapture (h : Kept n s) (hphase : s.phase = .capturing k) (ret : Int) :
    Kept n { s with phase := .captured ret } := by
  obtain ⟨hdisabled, hpos⟩ := h.starting (by simp [hphase])
  apply Kept.of_disabled
  · exact hdisabled
  · exact h.arrays
  · exact h.length
  · exact fun _ => hpos
  · exact fun _ => h.armed (.inl ⟨k, hphase⟩)

theorem Kept.enable (h : Kept n s) {ret : Int} (hphase : s.phase = .captured ret)
    (hheld : ret = 0 → ∀ b ∈ s.held, b = true) :
    Kept n { s with phase := .idle, bracketingEnabled := ret = 0 } := by
  obtain ⟨hdisabled, hpos⟩ := h.starting (by simp [hphase])
  obtain ⟨⟨a, harray⟩, hcount, hlast⟩ := h.armed (.inr ⟨ret, hphase⟩)
  refine ⟨⟨?_, h.arrays⟩, h.length, ?_, fun hne => absurd rfl hne, not_capturing rfl⟩
  · intro hret
    have hall : s.held = replicate n true :=
      List.eq_replicate_iff.mpr ⟨h.length, hheld (of_decide_eq_true hret)⟩
    refine ⟨a, ?_, ?_, ?_⟩
    · rw [hall]
      exact harray
    · rw [hall, List.count_replicate_self]
      exact hcount
    · rw [hall]
      exact List.mem_replicate.mpr ⟨by omega, rfl⟩
  · intro _
    show s.lastBracketingBufferIdx < n
    omega

theorem Kept.stopBracketing (h : Kept n s) (hphase : s.phase = .idle) :
    Kept n (stopBracketing s) := by
  apply Kept.of_disabled
  · rfl
  · have harrays : Balanced s.allocated s.deleted (s.current ++ []) := by
      rw [List.append_nil]
      exact h.arrays
    exact harrays.giveAll (List.Perm.refl _)
  · exact h.length
  · exact fun hne => absurd hphase hne
  · exact not_capturing hphase

theorem Kept.sends (h : Kept n s) (a : Step) : SendsRight n s a := by
  cases a with
  | startBurst =>
    intro henabled
    obtain ⟨a, harray, -, -⟩ := h.agrees henabled
    refine ⟨_, sendBracketFrames_eq harray (h.last henabled), ?_, List.filter_sublist, ?_⟩
    · apply List.Nodup.filter
      exact (ring_perm n _).nodup_iff.mpr List.nodup_range
    · intro i
      rw [List.mem_filter, (ring_perm n _).mem_iff, List.mem_range, decide_eq_true_eq]
  | startBracketing range => trivial
  | arm memory => trivial
  | queue accepted => trivial
  | captured ret => trivial
  | enable => trivial
  | stopBracketing => trivial
  | fillBufferDone index captureActive typeOfFrame accepted => trivial

theorem Kept.startBurst (h : Kept n s) (hburst : startBurst n s = some s') : Kept n s' := by
  rw [Bracketing.startBurst] at hburst
  split at hburst
  next => exact absurd hburst nofun
  next henabled =>
    obtain ⟨sent, -, rfl⟩ := Option.map_eq_some_iff.mp hburst
    have hidle : s.phase = .idle := by
      by_contra hne
      exact henabled (h.starting hne).1
    apply Kept.of_disabled
    · rfl
    · exact h.arrays
    · exact h.length
    · exact fun hne => absurd hidle hne
    · exact not_capturing hidle

theorem Kept.drop (h : Kept n s) (hdisabled : s.bracketingEnabled = false) (index : Nat)
    (capturedFrames : UInt32) :
    Kept n { s with held := s.held.set index false, capturedFrames := capturedFrames } := by
  apply Kept.of_disabled
  · exact hdisabled
  · exact h.arrays
  · rw [← h.length]
    exact length_set
  · exact fun hne => (h.starting hne).2
  · exact h.armed

/-- While bracketing is enabled a buffer that comes back is taken out of the array, and the
next one is queued if it was the last. -/
theorem Kept.doBracketing (h : Kept n s) (henabled : s.bracketingEnabled = true) {index : Nat}
    (hheld : s.held[index]? = some true) {typeOfFrame : FrameType} {accepted : Bool}
    (hok : s.bracketingBuffersQueuedCount ≤ 1 → typeOfFrame = .image ∧ accepted = true)
    (hdone : doBracketing n { s with held := s.held.set index false } index typeOfFrame accepted =
      some s') : Kept n s' := by
  obtain ⟨a, harray, hcount, -⟩ := h.agrees henabled
  have hidle : s.phase = .idle := by
    by_contra hne
    exact absurd (henabled.symm.trans (h.starting hne).1) nofun
  have hless := count_set_false hheld
  have hn : 0 < n := by
    have := h.last henabled
    omega
  rw [Bracketing.doBracketing] at hdone
  simp only [harray] at hdone
  split at hdone
  next hlast =>
    obtain ⟨htype, haccepted⟩ := hok (by omega)
    have hzero : (s.held.set index false).count true = 0 := by omega
    have hnext : (index + 1) % n < (s.held.set index false).length := by
      rw [length_set, h.length]
      exact Nat.mod_lt _ hn
    have hone := count_set_true hnext hzero
    rw [Ring.returnFrame, if_pos ⟨htype, haccepted⟩, Option.some.injEq] at hdone
    subst hdone
    refine ⟨⟨fun _ => ⟨a, rfl, ?_, ?_⟩, ?_⟩, ?_, ?_, fun hne => absurd hidle hne,
      not_capturing hidle⟩
    · show s.bracketingBuffersQueuedCount - 1 + 1 =
        ((s.held.set index false).set ((index + 1) % n) true).count true
      omega
    · apply count_pos_iff.mp
      show 0 < ((s.held.set index false).set ((index + 1) % n) true).count true
      omega
    · have harrays := h.arrays
      rwa [Ring.current, harray] at harrays
    · rw [← h.length]
      exact length_set.trans length_set
    · exact fun _ => Nat.mod_lt _ hn
  next hmore =>
    cases hdone
    refine ⟨⟨fun _ => ⟨a, rfl, ?_, ?_⟩, ?_⟩, ?_, h.last, fun hne => absurd hidle hne,
      not_capturing hidle⟩
    · show s.bracketingBuffersQueuedCount - 1 = (s.held.set index false).count true
      omega
    · apply count_pos_iff.mp
      show 0 < (s.held.set index false).count true
      omega
    · have harrays := h.arrays
      rwa [Ring.current, harray] at harrays
    · rw [← h.length]
      exact length_set

theorem next_kept (h : Kept n s) {a : Step} (hok : StepOk s a) (hnext : next n s a = some s') :
    Kept n s' := by
  cases a with
  | startBracketing range =>
    rw [next] at hnext
    split at hnext
    next => exact absurd hnext nofun
    next hidle =>
      split at hnext
      next => exact Option.some.inj hnext ▸ h
      next hgo =>
        cases hnext
        rw [not_or] at hgo
        apply Kept.of_disabled
        · exact Bool.eq_false_of_not_eq_true hgo.1
        · exact h.arrays
        · exact h.length
        · exact fun _ => Nat.pos_of_ne_zero hgo.2
        · rintro (⟨k, hk⟩ | ⟨ret, hret⟩)
          · exact absurd hk nofun
          · exact absurd hret nofun
  | arm memory =>
    rw [next] at hnext
    split at hnext
    next range hphase =>
      cases hnext
      exact h.arm hphase (hok ⟨range, hphase⟩) memory
    next => exact absurd hnext nofun
  | queue accepted =>
    rw [next] at hnext
    split at hnext
    next k hphase =>
      split at hnext
      next => exact absurd hnext nofun
      next =>
        split at hnext
        next =>
          cases hnext
          exact h.fill hphase
        next =>
          cases hnext
          exact h.leaveCapture hphase (-1)
    next => exact absurd hnext nofun
  | captured ret =>
    rw [next] at hnext
    split at hnext
    next k hphase =>
      split at hnext
      next =>
        cases hnext
        exact h.leaveCapture hphase ret
      next => exact absurd hnext nofun
    next => exact absurd hnext nofun
  | enable =>
    rw [next] at hnext
    split at hnext
    next ret hphase =>
      cases hnext
      exact h.enable hphase fun hret => hok (hret ▸ hphase)
    next => exact absurd hnext nofun
  | stopBracketing =>
    rw [next] at hnext
    split at hnext
    next => exact absurd hnext nofun
    next hidle =>
      cases hnext
      exact h.stopBracketing (not_not.mp hidle)
  | startBurst => exact h.startBurst hnext
  | fillBufferDone index captureActive typeOfFrame accepted =>
    rw [next] at hnext
    split at hnext
    next hheld =>
      rw [fillBufferDone] at hnext
      cases henabled : s.bracketingEnabled with
      | true =>
        obtain ⟨rfl, hlast⟩ := hok henabled hheld
        rw [if_neg Bool.noConfusion, if_pos henabled] at hnext
        exact h.doBracketing henabled hheld hlast hnext
      | false =>
        have hdrop := h.drop henabled index
        split at hnext
        next => exact Option.some.inj hnext ▸ hdrop s.capturedFrames
        next =>
          rw [if_neg (by simp [henabled])] at hnext
          split at hnext
          next => exact Option.some.inj hnext ▸ hdrop s.capturedFrames
          next => exact Option.some.inj hnext ▸ hdrop (s.capturedFrames - 1)
    next => exact absurd hnext nofun

/-! ## Steps that go wrong -/

theorem arm_wrong (h : Kept n s) (hsome : s.bracketingBuffersQueued ≠ none) (range : Int)
    (memory : Bool) : ¬ Sound (arm n s range memory) := by
  intro hsound
  have hbefore := h.arrays.length_eq
  have hafter := hsound.arrays.length_eq
  obtain ⟨⟨a, flags⟩, harray⟩ := Option.ne_none_iff_exists'.mp hsome
  cases memory with
  | true =>
    simp [arm, Ring.current, harray] at hbefore hafter
    omega
  | false =>
    simp [arm, Ring.current, harray] at hbefore hafter
    omega

theorem enable_wrong (h : Kept n s) (hphase : s.phase = .captured 0)
    (hmissing : ¬ ∀ b ∈ s.held, b = true) :
    ¬ Sound { s with phase := .idle, bracketingEnabled := true } := by
  intro hsound
  obtain ⟨⟨a, harray⟩, -, -⟩ := h.armed (.inr ⟨0, hphase⟩)
  obtain ⟨a', hagrees, -, -⟩ := hsound.agrees rfl
  have hheld : replicate n true = s.held :=
    (Prod.mk.inj (Option.some.inj (harray.symm.trans hagrees))).2
  apply hmissing
  rw [← hheld]
  exact fun b hb => (List.mem_replicate.mp hb).2

theorem fillBufferDone_wrong (h : Kept n s) (henabled : s.bracketingEnabled = true) {index : Nat}
    (hheld : s.held[index]? = some true) {captureActive : Bool} {typeOfFrame : FrameType}
    {accepted : Bool}
    (hwrong : ¬ (captureActive = true ∧
      (s.bracketingBuffersQueuedCount ≤ 1 → typeOfFrame = .image ∧ accepted = true))) :
    ∃ s', fillBufferDone n s index captureActive typeOfFrame accepted = some s' ∧ ¬ Sound s' := by
  obtain ⟨a, harray, hcount, -⟩ := h.agrees henabled
  cases captureActive with
  | false =>
    refine ⟨{ s with held := s.held.set index false }, rfl, ?_⟩
    intro hsound
    obtain ⟨a', hagrees, -, -⟩ := hsound.agrees henabled
    have hsame : s.held = s.held.set index false :=
      (Prod.mk.inj (Option.some.inj (harray.symm.trans hagrees))).2
    have hindex := (List.getElem?_eq_some_iff.mp hheld).1
    rw [hsame, List.getElem?_set_self hindex] at hheld
    exact absurd (Option.some.inj hheld) nofun
  | true =>
    have hlast : s.bracketingBuffersQueuedCount ≤ 1 ∧
        ¬ (typeOfFrame = .image ∧ accepted = true) := by
      constructor
      · by_contra hmore
        exact hwrong ⟨rfl, fun hle => absurd hle hmore⟩
      · intro hfill
        exact hwrong ⟨rfl, fun _ => hfill⟩
    have hless := count_set_false hheld
    have hzero : (s.held.set index false).count true = 0 := by omega
    have hnext : (index + 1) % n < (s.held.set index false).length := by
      rw [length_set, h.length]
      have := h.last henabled
      exact Nat.mod_lt _ (by omega)
    rw [fillBufferDone, if_neg Bool.noConfusion, if_pos henabled, Bracketing.doBracketing]
    simp only [harray]
    rw [if_pos (by omega), Ring.returnFrame, if_neg hlast.2]
    refine ⟨_, rfl, ?_⟩
    intro hsound
    obtain ⟨a', hagrees, -, -⟩ := hsound.agrees henabled
    have hsame : (s.held.set index false).set ((index + 1) % n) true = s.held.set index false :=
      (Prod.mk.inj (Option.some.inj hagrees)).2
    have hone := count_set_true hnext hzero
    rw [hsame] at hone
    omega

theorem next_wrong (h : Kept n s) {a : Step} (hwrong : ¬ StepOk s a) :
    ∃ s', next n s a = some s' ∧ ¬ Sound s' := by
  cases a with
  | arm memory =>
    simp only [StepOk, Classical.not_imp] at hwrong
    obtain ⟨⟨range, hphase⟩, hsome⟩ := hwrong
    refine ⟨arm n s range memory, ?_, arm_wrong h hsome range memory⟩
    rw [next, hphase]
  | enable =>
    simp only [StepOk, Classical.not_imp] at hwrong
    obtain ⟨hphase, hmissing⟩ := hwrong
    refine ⟨_, ?_, enable_wrong h hphase hmissing⟩
    rw [next, hphase]
    rfl
  | fillBufferDone index captureActive typeOfFrame accepted =>
    simp only [StepOk, Classical.not_imp] at hwrong
    obtain ⟨henabled, hheld, hwrong⟩ := hwrong
    obtain ⟨s', heq, hnot⟩ := fillBufferDone_wrong h henabled hheld hwrong
    exact ⟨s', by rw [next, if_pos hheld, heq], hnot⟩
  | startBracketing range => exact absurd trivial hwrong
  | queue accepted => exact absurd trivial hwrong
  | captured ret => exact absurd trivial hwrong
  | stopBracketing => exact absurd trivial hwrong
  | startBurst => exact absurd trivial hwrong

/-! ## Runs -/

theorem start_kept (n : Nat) (capturedFrames : UInt32) : Kept n (start n capturedFrames) := by
  apply Kept.of_disabled
  · rfl
  · exact balanced_nil
  · exact List.length_replicate
  · exact fun hne => absurd rfl hne
  · exact not_capturing rfl

/-- For every number of buffers and every run: the array agrees with the component while
bracketing is enabled, every array but the one in use has been deleted once, and each burst
sends what it should, exactly if every step is as `StepOk` says. -/
theorem bracketing_iff (n : Nat) (capturedFrames : UInt32) (as : List Step) :
    Throughout (next n) Sound (start n capturedFrames) as ∧
        Guarded (next n) (SendsRight n) (start n capturedFrames) as ↔
      Guarded (next n) StepOk (start n capturedFrames) as := by
  have hstart := start_kept n capturedFrames
  have hiff : Throughout (next n) Sound (start n capturedFrames) as ↔
      Guarded (next n) StepOk (start n capturedFrames) as :=
    throughout_iff_guarded (fun _ hs => hs.toSound)
      (fun _ _ _ hs hok hnext => next_kept hs hok hnext)
      (fun _ _ hs hwrong => next_wrong hs hwrong) hstart
  constructor
  · rintro ⟨hsound, -⟩
    exact hiff.mp hsound
  · intro hok
    refine ⟨hiff.mpr hok, ?_⟩
    exact hok.mono (fun s a hs _ => hs.sends a) (fun s a s' hs ha hnext => next_kept hs ha hnext)
      hstart

/-- Two buffers are queued and the first comes back before `startBracketing` has returned;
the adapter is not in a capture state yet. -/
def earlyBuffer : List Step :=
  [.startBracketing 2, .arm true, .queue true, .queue true, .fillBufferDone 0 false .image true,
    .captured 0, .enable]

/-- The array says two buffers and the component has one. And a start that fails leaves its
array behind for good when bracketing is started again. -/
theorem array_disagrees :
    (∃ s, run (next 2) (start 2 0) earlyBuffer = some s ∧ s.bracketingEnabled = true ∧
      s.bracketingBuffersQueued = some (0, [true, true]) ∧ s.held = [false, true]) ∧
    ¬ Throughout (next 2) Sound (start 2 0) earlyBuffer ∧
    ∃ s, run (next 2) (start 2 0) [.startBracketing 2, .arm true, .captured (-19), .enable,
      .startBracketing 2, .arm true] = some s ∧ s.allocated = [0, 1] ∧ s.deleted = [] ∧
        s.current = [1] := by
  have hend : (run (next 2) (start 2 0) earlyBuffer).map (fun s =>
      (s.bracketingEnabled, s.bracketingBuffersQueued, s.held)) =
        some (true, some (0, [true, true]), [false, true]) := by decide
  obtain ⟨s, hs, hfields⟩ := Option.map_eq_some_iff.mp hend
  simp only [Prod.mk.injEq] at hfields
  obtain ⟨henabled, harray, hheld⟩ := hfields
  refine ⟨⟨s, hs, henabled, harray, hheld⟩, ?_, ⟨_, rfl, rfl, rfl, rfl⟩⟩
  intro hsound
  have hlast : Sound s := Throughout.last hsound hs
  obtain ⟨a, hagrees, -, -⟩ := hlast.agrees henabled
  rw [harray, hheld] at hagrees
  exact absurd (Prod.mk.inj (Option.some.inj hagrees)).2 (by decide)

end Omap4Hal.Camera.Bracketing

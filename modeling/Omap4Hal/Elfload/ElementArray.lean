import Mathlib.Algebra.Group.Int.Defs
import Omap4Hal.Elfload.NodeQueue

/- The growing array of `ArrayList.c` in memory: a buffer of so many bytes, and the elements that
   have been written into it. An overflow of `int32_t` and an access outside a buffer are `none`.

   The old buffer is freed also when the new one is not granted, and nothing points to it any more:
   what was in it is lost, and the next element is written through a null pointer. -/
namespace Omap4Hal.Elfload.ElementArray

open Lib
open NodeQueue

/-! ## The code -/

/-- A buffer, and the elements at its start. -/
structure Buffer (α : Type) where
  bytes : Int
  elems : List α

/-- `Array_List`; a null buffer is `none`. -/
structure ArrayList (α : Type) where
  buf : Option (Buffer α)
  typeSize : Int
  size : Nat
  bufferSize : Int

variable {α : Type}

/-- A value of `int32_t`, if there is no overflow. -/
def int32 (n : Int) : Option Int := if -2 ^ 31 ≤ n ∧ n < 2 ^ 31 then some n else none

/-- `DLIF_malloc` -/
def malloc (bytes : Int) (granted : Bool) : Option (Buffer α) :=
  if granted then some { bytes := bytes, elems := [] } else none

/-- `memcpy` of one element to the place with the number `i`. -/
def Buffer.write (b : Buffer α) (typeSize : Int) (i : Nat) (x : α) : Option (Buffer α) :=
  if typeSize * (i + 1) ≤ b.bytes ∧ i ≤ b.elems.length then
    some { b with elems := b.elems.take i ++ x :: b.elems.drop (i + 1) }
  else none

/-- `memcpy` of the first `n` elements of the old buffer. -/
def Buffer.copy (b old : Buffer α) (typeSize : Int) (n : Nat) : Option (Buffer α) :=
  if typeSize * n ≤ b.bytes ∧ n ≤ old.elems.length then
    some { b with elems := old.elems.take n ++ b.elems.drop n }
  else none

/-- `AL_initialize` -/
def initializeList (typeSize numElem : Int) (granted : Bool) : Option (ArrayList α) :=
  let numElem := if numElem = 0 then 1 else numElem
  (int32 (typeSize * numElem)).map fun bytes =>
    { buf := malloc bytes granted, typeSize := typeSize, size := 0, bufferSize := numElem }

/-- The element is written behind the last one. -/
def ArrayList.put (l : ArrayList α) (b : Buffer α) (x : α) : Option (ArrayList α) :=
  (b.write l.typeSize l.size x).map fun b => { l with buf := some b, size := l.size + 1 }

/-- `AL_append`, where `granted` says whether `DLIF_malloc` returns a buffer if it is called. -/
def ArrayList.append (l : ArrayList α) (x : α) (granted : Bool) : Option (ArrayList α) :=
  if (l.size : Int) < l.bufferSize then l.buf.bind fun b => l.put b x
  else do
    let bufferSize ← int32 (l.bufferSize * 2)
    let bytes ← int32 (bufferSize * l.typeSize)
    match malloc bytes granted with
    | none => some { l with buf := none, bufferSize := bufferSize }
    | some b =>
      let old ← l.buf
      let b ← b.copy old l.typeSize l.size
      ({ l with bufferSize := bufferSize } : ArrayList α).put b x

/-! ## Runs -/

/-- The elements are in the buffer, one behind the other. -/
def Keeps (l : ArrayList α) (xs : List α) : Prop :=
  l.size = xs.length ∧ (xs ≠ [] → ∃ b, l.buf = some b ∧ b.elems = xs)

def ArrayList.Grows (l : ArrayList α) : Prop := ¬ (l.size : Int) < l.bufferSize

/-- The list and what should be in it: an element that is not given room is not in it. -/
def step (s : ArrayList α × List α) (call : α × Bool) : Option (ArrayList α × List α) :=
  (s.1.append call.1 call.2).map fun l =>
    (l, if l.size = s.1.size then s.2 else s.2 ++ [call.1])

/-- There is a buffer, and where it has to grow, it can. -/
def Room (s : ArrayList α × List α) (call : α × Bool) : Prop :=
  s.1.buf ≠ none ∧
    (s.1.Grows → call.2 = true ∧ 2 * s.1.bufferSize * s.1.typeSize < 2 ^ 31)

/-- What holds of a list that has lost nothing. -/
structure Sound (s : ArrayList α × List α) : Prop where
  typeSize : 0 < s.1.typeSize
  bufferSize : 0 < s.1.bufferSize
  size : s.1.size = s.2.length
  inside : (s.1.size : Int) ≤ s.1.bufferSize
  bounded : s.1.bufferSize * s.1.typeSize < 2 ^ 31
  held : ∀ b, s.1.buf = some b → b.bytes = s.1.bufferSize * s.1.typeSize ∧ b.elems = s.2
  refused : s.1.buf = none → s.2 = []

theorem Sound.keeps {s : ArrayList α × List α} (h : Sound s) : Keeps s.1 s.2 := by
  refine ⟨h.size, ?_⟩
  intro hne
  obtain ⟨b, hb⟩ := Option.ne_none_iff_exists'.mp fun hnone => hne (h.refused hnone)
  exact ⟨b, hb, (h.held b hb).2⟩

theorem int32_eq {n : Int} (h : -2 ^ 31 ≤ n ∧ n < 2 ^ 31) : int32 n = some n := if_pos h

theorem int32_some {n m : Int} (h : int32 n = some m) : m = n ∧ n < 2 ^ 31 := by
  rw [int32, Option.ite_none_right_eq_some] at h
  exact ⟨(Option.some.inj h.2).symm, h.1.2⟩

theorem initializeList_sound {typeSize numElem : Int} {granted : Bool} {l : ArrayList α}
    (htype : 0 < typeSize) (hnum : 0 ≤ numElem)
    (h : initializeList typeSize numElem granted = some l) : Sound (l, []) := by
  obtain ⟨bytes, hbytes, rfl⟩ := Option.map_eq_some_iff.mp h
  obtain ⟨rfl, hlt⟩ := int32_some hbytes
  have hpos : 0 < if numElem = 0 then 1 else numElem := by split <;> omega
  refine ⟨htype, hpos, rfl, Int.le_of_lt hpos, ?_, ?_, fun _ => rfl⟩
  · rw [Int.mul_comm]
    exact hlt
  · intro b hb
    cases granted with
    | false => cases hb
    | true =>
      cases hb
      exact ⟨Int.mul_comm .., rfl⟩

theorem put_eq {l : ArrayList α} {b : Buffer α} {xs : List α} (x : α)
    (hroom : l.typeSize * (l.size + 1) ≤ b.bytes) (hsize : l.size = xs.length)
    (helems : b.elems = xs) :
    l.put b x = some { l with
      buf := some { b with elems := xs ++ [x] }
      size := l.size + 1 } := by
  rw [ArrayList.put, Buffer.write, if_pos ⟨hroom, by rw [helems, hsize]⟩, helems, hsize,
    List.take_length, List.drop_of_length_le (Nat.le_succ _)]
  rfl

/-! ## Steps -/

section Steps
variable {s : ArrayList α × List α} {call : α × Bool}

theorem step_appended {l : ArrayList α} (h : s.1.append call.1 call.2 = some l)
    (hsize : l.size ≠ s.1.size) : step s call = some (l, s.2 ++ [call.1]) := by
  rw [step, h, Option.map_some, if_neg hsize]

theorem Sound.full (h : Sound s) (hgrows : s.1.Grows) : (s.1.size : Int) = s.1.bufferSize :=
  Int.le_antisymm h.inside (Int.not_lt.mp hgrows)

theorem Sound.append_inside (h : Sound s) (hbuf : s.1.buf ≠ none) (hgrows : ¬ s.1.Grows) :
    ∃ s', step s call = some s' ∧ Sound s' := by
  obtain ⟨b, hb⟩ := Option.ne_none_iff_exists'.mp hbuf
  obtain ⟨hbytes, helems⟩ := h.held b hb
  have hlt : (s.1.size : Int) < s.1.bufferSize := not_not.mp hgrows
  have hroom : s.1.typeSize * (s.1.size + 1) ≤ b.bytes := by
    rw [hbytes, Int.mul_comm s.1.bufferSize]
    exact Int.mul_le_mul_of_nonneg_left hlt (Int.le_of_lt h.typeSize)
  have happend := put_eq call.1 hroom h.size helems
  refine ⟨_, step_appended (by rw [ArrayList.append, if_pos hlt, hb, Option.bind_some, happend])
    (Nat.succ_ne_self _), ?_⟩
  refine ⟨h.typeSize, h.bufferSize, ?_, hlt, h.bounded, ?_, fun hnone => by cases hnone⟩
  · simp [h.size]
  · intro b' hb'
    cases hb'
    exact ⟨hbytes, rfl⟩

theorem Sound.append_grown (h : Sound s) (hbuf : s.1.buf ≠ none) (hgrows : s.1.Grows)
    (hgranted : call.2 = true) (hbound : 2 * s.1.bufferSize * s.1.typeSize < 2 ^ 31) :
    ∃ s', step s call = some s' ∧ Sound s' := by
  obtain ⟨b, hb⟩ := Option.ne_none_iff_exists'.mp hbuf
  obtain ⟨hbytes, helems⟩ := h.held b hb
  have hfull := h.full hgrows
  have htype := h.typeSize
  have hpos := h.bufferSize
  have hbytes' : s.1.bufferSize * 2 * s.1.typeSize < 2 ^ 31 := by
    rwa [Int.mul_comm s.1.bufferSize 2]
  have hnonneg : 0 ≤ s.1.bufferSize * 2 * s.1.typeSize :=
    Int.mul_nonneg (by omega) (Int.le_of_lt htype)
  have hcount : s.1.bufferSize * 2 * 1 ≤ s.1.bufferSize * 2 * s.1.typeSize :=
    Int.mul_le_mul_of_nonneg_left htype (by omega)
  have hcopy : s.1.typeSize * (s.1.size : Int) ≤ s.1.bufferSize * 2 * s.1.typeSize := by
    rw [Int.mul_comm]
    exact Int.mul_le_mul_of_nonneg_right (by omega) (Int.le_of_lt htype)
  have hroom : s.1.typeSize * ((s.1.size : Int) + 1) ≤ s.1.bufferSize * 2 * s.1.typeSize := by
    rw [Int.mul_comm]
    exact Int.mul_le_mul_of_nonneg_right (by omega) (Int.le_of_lt htype)
  have hgrown : s.1.append call.1 call.2 =
      ArrayList.put { s.1 with bufferSize := s.1.bufferSize * 2 }
        { bytes := s.1.bufferSize * 2 * s.1.typeSize, elems := s.2 } call.1 := by
    have hcopied : Buffer.copy { bytes := s.1.bufferSize * 2 * s.1.typeSize, elems := [] } b
        s.1.typeSize s.1.size =
          some { bytes := s.1.bufferSize * 2 * s.1.typeSize, elems := s.2 } := by
      rw [Buffer.copy, if_pos ⟨hcopy, by rw [helems, h.size]⟩, helems, h.size]
      simp
    rw [ArrayList.append, if_neg hgrows, int32_eq ⟨by omega, by omega⟩]
    simp only [Option.bind_eq_bind, Option.bind_some]
    rw [int32_eq ⟨by omega, hbytes'⟩, hgranted, hb]
    simp only [Option.bind_some, malloc, if_true, hcopied]
  refine ⟨_, step_appended (hgrown.trans (put_eq call.1 hroom h.size rfl))
    (Nat.succ_ne_self _), ?_⟩
  refine ⟨htype, ?_, ?_, ?_, hbytes', ?_, fun hnone => by cases hnone⟩
  · show 0 < s.1.bufferSize * 2
    omega
  · simp [h.size]
  · show ((s.1.size + 1 : Nat) : Int) ≤ s.1.bufferSize * 2
    omega
  · intro b' hb'
    cases hb'
    exact ⟨rfl, rfl⟩

theorem Sound.append_lost (h : Sound s) (hroom : ¬ Room s call) {s' : ArrayList α × List α}
    (hstep : step s call = some s') : ¬ Keeps s'.1 s'.2 := by
  obtain ⟨l, hl, rfl⟩ := Option.map_eq_some_iff.mp hstep
  by_cases hgrows : s.1.Grows
  · have hfull := h.full hgrows
    have hpos := h.bufferSize
    rw [ArrayList.append, if_neg hgrows] at hl
    obtain ⟨bufferSize, hdouble, hl⟩ := Option.bind_eq_some_iff.mp hl
    obtain ⟨rfl, -⟩ := int32_some hdouble
    obtain ⟨bytes, hbytes, hl⟩ := Option.bind_eq_some_iff.mp hl
    obtain ⟨rfl, hbound⟩ := int32_some hbytes
    cases hgranted : call.2 with
    | false =>
      rw [hgranted] at hl
      cases hl
      rintro ⟨-, hkept⟩
      have hne : s.2 ≠ [] := by
        intro hnil
        have hsize : s.1.size = 0 := by
          rw [h.size, hnil]
          rfl
        omega
      obtain ⟨b, hb, -⟩ := hkept (by rwa [if_pos rfl])
      cases hb
    | true =>
      rw [hgranted] at hl
      obtain ⟨old, hold, -⟩ := Option.bind_eq_some_iff.mp hl
      refine absurd ⟨?_, fun _ => ⟨hgranted, ?_⟩⟩ hroom
      · rw [hold]
        exact Option.some_ne_none _
      · rwa [Int.mul_comm 2]
  · have hlt : (s.1.size : Int) < s.1.bufferSize := not_not.mp hgrows
    have hnone : s.1.buf = none := by
      by_contra hbuf
      exact hroom ⟨hbuf, fun hg => absurd hg hgrows⟩
    rw [ArrayList.append, if_pos hlt, hnone] at hl
    cases hl

theorem Sound.append (h : Sound s) (hroom : Room s call) :
    ∃ s', step s call = some s' ∧ Sound s' := by
  by_cases hgrows : s.1.Grows
  · obtain ⟨hgranted, hbound⟩ := hroom.2 hgrows
    exact h.append_grown hroom.1 hgrows hgranted hbound
  · exact h.append_inside hroom.1 hgrows

end Steps

theorem keeps_iff_room {s : ArrayList α × List α} (h : Sound s) (calls : List (α × Bool)) :
    Always step (fun s => Keeps s.1 s.2) s calls ↔ Guarded step Room s calls :=
  always_iff_guarded_under (fun _ => Sound.keeps) (fun _ _ hs _ hroom => hs.append hroom)
    (fun _ _ _ hs _ hroom hstep => hs.append_lost hroom hstep) h (guarded_true s calls)

/-! ## Both containers -/

/-- The calls on a queue do to its nodes what they do to a sequence. -/
def QueueFollows [DecidableEq α] (node : Nat → Option (NodeQueue.Node α))
    (calls : List (NodeQueue.Call α)) : Prop :=
  ∃ q, run NodeQueue.step (initializeQueue node) calls = some q ∧
    q.Represents (calls.foldl apply [])

/-- Every run of a queue is right, and a run of appends as long as the buffer can grow. -/
theorem containers_iff {β : Type} [DecidableEq β] (node : Nat → Option (NodeQueue.Node β))
    (queueCalls : List (NodeQueue.Call β))
    (hfresh : Guarded NodeQueue.step NodeQueue.Fresh (initializeQueue node) queueCalls)
    (typeSize numElem : Int) (granted : Bool) (l : ArrayList α) (htype : 0 < typeSize)
    (hnum : 0 ≤ numElem) (hinit : initializeList typeSize numElem granted = some l)
    (appends : List (α × Bool)) :
    (QueueFollows node queueCalls ∧ Always step (fun s => Keeps s.1 s.2) (l, []) appends) ↔
      Guarded step Room (l, []) appends := by
  have hqueue : QueueFollows node queueCalls :=
    (initializeQueue_represents node).run hfresh
  rw [keeps_iff_room (initializeList_sound htype hnum hinit)]
  exact and_iff_right hqueue

/-- The empty memory, and a list that is asked for room for one element. -/
theorem containers_two :
    QueueFollows (fun _ => none) [.enqueue 5 8, .enqueue 7 16, .remove 5] ∧
      Always step (fun s => Keeps s.1 s.2)
        (⟨some ⟨4, []⟩, 4, 0, 1⟩, []) [(5, true), (7, true)] := by
  refine (containers_iff _ _ ?_ 4 1 true _ (by decide) (by decide) rfl _).mpr ?_
  · refine ⟨rfl, ?_⟩
    rintro _ ⟨⟩
    exact ⟨rfl, fun _ _ => ⟨trivial, fun _ _ => trivial⟩⟩
  · refine ⟨⟨Option.some_ne_none _, fun hgrows => absurd (by decide) hgrows⟩, ?_⟩
    rintro _ ⟨⟩
    exact ⟨⟨Option.some_ne_none _, fun _ => ⟨rfl, by decide⟩⟩, fun _ _ => trivial⟩

/-- The second element finds no memory, and the first one is lost. -/
theorem append_refused_lost :
    ¬ Always step (fun s => Keeps s.1 s.2)
      ((⟨some ⟨4, []⟩, 4, 0, 1⟩ : ArrayList Nat), []) [(5, true), (7, false)] := by
  rintro ⟨-, s, hs, -, t, ht, -, hkept⟩
  cases hs
  cases ht
  obtain ⟨b, hb, -⟩ := hkept (by decide)
  cases hb

end Omap4Hal.Elfload.ElementArray

import Mathlib.Data.List.Nodup
import Mathlib.Data.List.ReduceOption
import Omap4Hal.Lib.GrowingTable

/- The master DSBT of the loader's client (`dlw_dsbt.c`). Modules ask for an index while they are
   loaded, for one of their own choice or for any, and the requests wait in a queue until
   `DLIF_assign_dsbt_indices` serves first those of the one kind and then those of the other. A
   module that is unloaded gives its slot back.

   The index that `DLIF_get_dsbt_index` returns is the one recorded in the request. For a module
   that chose its index `assign_dsbt_entry` records what was recorded before, which is that there
   is none. `Sane` is what holds of the table all the time; `assign_spec` says what an assignment
   does to it. -/
namespace Omap4Hal.Elfload.Dsbt

open Lib

/-! ## Requests -/

/-- `DSBT_Index_Request`. An index that is not there is `DSBT_INDEX_INVALID`. -/
structure Request where
  name : String
  fileHandle : Int
  dsbtSize : Nat
  dsbtBase : Nat
  staticBase : Nat
  requestedIndex : Option Nat
  assignedIndex : Option Nat
  deriving DecidableEq

/-- `DSBT_master`, `DSBT_first_avail_index` and `DSBT_index_request_queue`. Runs start from an
empty table that `AL_initialize` has set up; the comments assume that it has been called, but
nothing in this repository calls it for `DSBT_master`. -/
structure State where
  master : List (Option Request) := []
  firstAvail : Nat := 0
  queue : List Request := []
  deriving DecidableEq

/-- What `DLIF_error` is given. -/
inductive RegisterError
  | inUse (requestor : String) (index : Nat) (user : String)
  | requestedTwice (name : String)
  | alreadyRequested (index : Nat) (requestor name : String)
  | noDsbtBase (requestor : String)
  | noStaticBase (requestor : String)
  deriving DecidableEq

/-- What is asked for, and what the loader knows of the module (`DLOAD_get_dsbt_size` and so
on). -/
structure Asked where
  requestorName : String
  requestorFileHandle : Int
  requestedDsbtIndex : Int
  dsbtSize : Nat
  dsbtBase : Option Nat
  staticBase : Option Nat
  deriving DecidableEq

/-- -1 is `DSBT_INDEX_INVALID`. An index below it is no index of the table. -/
def Asked.InRange (a : Asked) : Prop := -1 ≤ a.requestedDsbtIndex

instance (a : Asked) : Decidable a.InRange := inferInstanceAs (Decidable (_ ≤ _))

def Asked.index (a : Asked) : Option Nat :=
  if a.requestedDsbtIndex = -1 then none else some a.requestedDsbtIndex.toNat

/-- The queue is walked from the front. -/
def checkQueue (a : Asked) (index : Nat) : List Request → Option RegisterError
  | [] => none
  | existing :: rest =>
    if a.requestorFileHandle = existing.fileHandle then some (.requestedTwice existing.name)
    else if existing.requestedIndex = some index then
      some (.alreadyRequested index a.requestorName existing.name)
    else checkQueue a index rest

def checkSpecific (s : State) (a : Asked) (index : Nat) : Option RegisterError :=
  match slotAt s.master index with
  | some active => some (.inUse a.requestorName index active.name)
  | none => checkQueue a index s.queue

def checkBases (a : Asked) : Except RegisterError Request :=
  match a.dsbtBase, a.staticBase with
  | none, _ => .error (.noDsbtBase a.requestorName)
  | some _, none => .error (.noStaticBase a.requestorName)
  | some dsbtBase, some staticBase => .ok
    { name := a.requestorName
      fileHandle := a.requestorFileHandle
      dsbtSize := a.dsbtSize
      dsbtBase := dsbtBase
      staticBase := staticBase
      requestedIndex := a.index
      assignedIndex := none }

/-- `DLIF_register_dsbt_index_request`. A negative index is below the size of the table, so the
slot in front of the table is read: the call is not followed any further. -/
def register (s : State) (a : Asked) : Option (Except RegisterError State) :=
  if a.InRange then
    some (match a.index.bind (checkSpecific s a) with
      | some e => .error e
      | none => (checkBases a).map fun r => { s with queue := s.queue ++ [r] })
  else none

/-! ## Assignment -/

def assignEntry (s : State) (r : Request) : State :=
  match r.requestedIndex with
  | some n =>
    -- the assigned index is set to itself
    { s with master := placeAt s.master n { r with assignedIndex := r.assignedIndex } }
  | none =>
    let i := firstEmpty (s.master.drop s.firstAvail) s.firstAvail
    let r := { r with assignedIndex := some i }
    { s with
      firstAvail := i
      master := if i = s.master.length then s.master ++ [some r] else s.master.set i (some r) }

/-- The first pass, over the queue as it was at its start. -/
def assignSpecific (s : State) : State :=
  s.queue.foldl (fun s r =>
    if r.requestedIndex = none then s
    else { assignEntry s r with queue := s.queue.erase r }) s

/-- The second pass takes all that is left off the queue. -/
def assignGeneral (s : State) : State :=
  s.queue.foldl (fun s r => { assignEntry s r with queue := s.queue.tail }) s

/-- `DLIF_assign_dsbt_indices` -/
def assignIndices (s : State) : State := assignGeneral (assignSpecific s)

/-- `DLIF_get_dsbt_index`: what is recorded for the first slot of the module. -/
def getIndex (s : State) (fileHandle : Int) : Option Nat :=
  (s.master.reduceOption.find? fun r => r.fileHandle = fileHandle).bind (·.assignedIndex)

/-- The loop of `DSBT_release_entry` over the slots from number `i` on. -/
def releaseFrom (fileHandle : Int) :
    List (Option Request) → Nat → Nat → List (Option Request) × Nat
  | [], _, avail => ([], avail)
  | slot :: rest, i, avail =>
    if slot.any fun r => r.fileHandle = fileHandle then
      let p := releaseFrom fileHandle rest (i + 1) (if i < avail then i else avail)
      (none :: p.1, p.2)
    else
      let p := releaseFrom fileHandle rest (i + 1) avail
      (slot :: p.1, p.2)

/-- `DSBT_release_entry` -/
def release (s : State) (fileHandle : Int) : State :=
  let p := releaseFrom fileHandle s.master 0 s.firstAvail
  { s with master := p.1, firstAvail := p.2 }

/-! ## What a call does -/

section Calls

variable {s s' : State}

theorem checkQueue_eq_none {a : Asked} {n : Nat} {queue : List Request}
    (h : checkQueue a n queue = none) : ∀ q ∈ queue, q.requestedIndex ≠ some n := by
  induction queue with
  | nil => simp
  | cons q queue ih =>
    rw [checkQueue] at h
    split at h
    · cases h
    · split at h
      · cases h
      · next hne =>
        intro r hr
        rcases List.mem_cons.mp hr with rfl | hr
        · exact hne
        · exact ih h r hr

/-- A request that is accepted is the last of the queue. If it is a specific one, nobody has the
slot and nobody waits for it. -/
theorem register_ok {a : Asked} (h : register s a = some (.ok s')) :
    ∃ r : Request, s' = { s with queue := s.queue ++ [r] } ∧
      r.fileHandle = a.requestorFileHandle ∧ r.requestedIndex = a.index ∧
      r.assignedIndex = none ∧
      ∀ n, a.index = some n →
        slotAt s.master n = none ∧ ∀ q ∈ s.queue, q.requestedIndex ≠ some n := by
  rw [register] at h
  split at h
  · have hok := Option.some.inj h
    split at hok
    · cases hok
    · next hcheck =>
      rw [checkBases] at hok
      split at hok
      · cases hok
      · cases hok
      · refine ⟨_, (Except.ok.inj hok).symm, rfl, rfl, rfl, ?_⟩
        intro n hn
        rw [hn, Option.bind_some, checkSpecific] at hcheck
        split at hcheck
        · cases hcheck
        · next hfree => exact ⟨hfree, checkQueue_eq_none hcheck⟩
  · cases h

theorem register_eq_none_iff {a : Asked} : register s a = none ↔ ¬ a.InRange := by
  rw [register]
  split <;> simp [*]

theorem releaseFrom_spec (h : Int) (t : List (Option Request)) (i avail : Nat) :
    (releaseFrom h t i avail).1.length = t.length ∧ (releaseFrom h t i avail).2 ≤ avail ∧
      ∀ k, slotAt (releaseFrom h t i avail).1 k =
          (slotAt t k).filter (fun r => r.fileHandle ≠ h) ∧
        ∀ r, slotAt t k = some r → r.fileHandle = h → (releaseFrom h t i avail).2 ≤ i + k := by
  induction t generalizing i avail with
  | nil => simp [releaseFrom]
  | cons slot t ih =>
    rw [releaseFrom]
    split
    · next hmine =>
      obtain ⟨hlen, hle, hslots⟩ := ih (i + 1) (if i < avail then i else avail)
      have hmin : (if i < avail then i else avail) ≤ i ∧
          (if i < avail then i else avail) ≤ avail := by
        split <;> omega
      refine ⟨by simp [hlen], by simp only; omega, ?_⟩
      intro k
      cases k with
      | zero =>
        obtain ⟨r, rfl⟩ := Option.isSome_iff_exists.mp (Option.isSome_of_any hmine)
        simp only [Option.any_some, decide_eq_true_eq] at hmine
        exact ⟨by simp [Option.filter, hmine], fun _ _ _ => by simp only; omega⟩
      | succ k =>
        obtain ⟨hslot, havail⟩ := hslots k
        exact ⟨hslot, fun r hr hh => by have := havail r hr hh; simp only; omega⟩
    · next hother =>
      obtain ⟨hlen, hle, hslots⟩ := ih (i + 1) avail
      refine ⟨by simp [hlen], hle, ?_⟩
      intro k
      cases k with
      | zero =>
        cases slot with
        | none => simp
        | some r =>
          simp only [Option.any_some, decide_eq_true_eq] at hother
          refine ⟨by simp [Option.filter, hother], ?_⟩
          intro r' hr' hh
          cases hr'
          exact absurd hh hother
      | succ k =>
        obtain ⟨hslot, havail⟩ := hslots k
        exact ⟨hslot, fun r hr hh => by have := havail r hr hh; simp only; omega⟩

theorem slotAt_release (h : Int) (i : Nat) :
    slotAt (release s h).master i = (slotAt s.master i).filter (fun r => r.fileHandle ≠ h) :=
  ((releaseFrom_spec h s.master 0 s.firstAvail).2.2 i).1

end Calls

/-! ## The invariant -/

/-- All slots below `firstAvail` are in use. A module is in one slot only, and then no longer in
the queue; the slots that the queue asks for are free. -/
structure Sane (s : State) : Prop where
  bound : s.firstAvail ≤ s.master.length
  used : ∀ i, i < s.firstAvail → slotAt s.master i ≠ none
  once : ∀ i j r r', slotAt s.master i = some r → slotAt s.master j = some r' →
    r.fileHandle = r'.fileHandle → i = j
  chosen : ∀ i r n, slotAt s.master i = some r → r.requestedIndex = some n →
    i = n ∧ r.assignedIndex = none
  given : ∀ i r, slotAt s.master i = some r → r.requestedIndex = none → r.assignedIndex = some i
  waiting : (s.queue.map Request.fileHandle).Nodup
  apart : ∀ i r, slotAt s.master i = some r → ∀ q ∈ s.queue, r.fileHandle ≠ q.fileHandle
  free : ∀ q ∈ s.queue, ∀ n, q.requestedIndex = some n → slotAt s.master n = none
  differ : s.queue.Pairwise fun q q' => ∀ n, q.requestedIndex = some n →
    q'.requestedIndex ≠ some n
  unassigned : ∀ q ∈ s.queue, q.assignedIndex = none

variable {s : State}

theorem Sane.place {t : State} (h : Sane s) {pre post : List Request} {r r' : Request} {k : Nat}
    (hqueue : s.queue = pre ++ r :: post) (hqueue' : t.queue = pre ++ post)
    (hempty : slotAt s.master k = none)
    (hslots : ∀ i, slotAt t.master i = if i = k then some r' else slotAt s.master i)
    (hhandle : r'.fileHandle = r.fileHandle)
    (hchosen : ∀ n, r'.requestedIndex = some n → k = n ∧ r'.assignedIndex = none)
    (hgiven : r'.requestedIndex = none → r'.assignedIndex = some k)
    (hothers : ∀ q ∈ pre ++ post, q.requestedIndex ≠ some k)
    (hbound : t.firstAvail ≤ t.master.length)
    (hused : ∀ i, i < t.firstAvail → slotAt t.master i ≠ none) : Sane t := by
  have hrest : ∀ q ∈ t.queue, q ∈ s.queue := by
    intro q hq
    rw [hqueue'] at hq
    rw [hqueue]
    rcases List.mem_append.mp hq with hq | hq
    · exact List.mem_append_left _ hq
    · exact List.mem_append_right _ (List.mem_cons_of_mem _ hq)
  have hr : r ∈ s.queue := by simp [hqueue]
  have hsub : (pre ++ post).Sublist (pre ++ r :: post) :=
    (List.Sublist.refl pre).append (List.sublist_cons_self r post)
  have hnew : ∀ i x, slotAt s.master i = some x → x.fileHandle ≠ r'.fileHandle := fun i x hx =>
    hhandle ▸ h.apart i x hx r hr
  have hne : ∀ q ∈ t.queue, r'.fileHandle ≠ q.fileHandle := by
    intro q hq heq
    have hnd := h.waiting
    rw [hqueue, List.map_append, List.map_cons] at hnd
    have hnotin := (List.nodup_middle.mp hnd).notMem
    rw [← List.map_append, ← hqueue'] at hnotin
    exact hnotin (List.mem_map.mpr ⟨q, hq, heq.symm.trans hhandle⟩)
  constructor
  case bound => exact hbound
  case used => exact hused
  case once =>
    intro i j x x' hi hj heq
    rw [hslots] at hi hj
    split at hi <;> split at hj
    · omega
    · cases hi
      exact absurd heq.symm (hnew j x' hj)
    · cases hj
      exact absurd heq (hnew i x hi)
    · exact h.once i j x x' hi hj heq
  case chosen =>
    intro i x n hi hn
    rw [hslots] at hi
    split at hi
    · next hik =>
      cases hi
      exact hik ▸ hchosen n hn
    · exact h.chosen i x n hi hn
  case given =>
    intro i x hi hn
    rw [hslots] at hi
    split at hi
    · next hik =>
      cases hi
      exact hik ▸ hgiven hn
    · exact h.given i x hi hn
  case waiting =>
    have hnd := h.waiting
    rw [hqueue] at hnd
    rw [hqueue']
    exact hnd.sublist (hsub.map _)
  case apart =>
    intro i x hi q hq
    rw [hslots] at hi
    split at hi
    · cases hi
      exact hne q hq
    · exact h.apart i x hi q (hrest q hq)
  case free =>
    intro q hq n hn
    rw [hslots, if_neg]
    · exact h.free q (hrest q hq) n hn
    · rintro rfl
      exact hothers q (hqueue' ▸ hq) hn
  case differ =>
    have hpair := h.differ
    rw [hqueue] at hpair
    rw [hqueue']
    exact hpair.sublist hsub
  case unassigned => exact fun q hq => h.unassigned q (hrest q hq)

/-- The module has a slot or waits for one. -/
def Mentions (s : State) (h : Int) : Prop :=
  (∃ i r, slotAt s.master i = some r ∧ r.fileHandle = h) ∨ ∃ q ∈ s.queue, q.fileHandle = h

theorem mentions_of_place {t : State} {r r' : Request} {k : Nat} (hr : r ∈ s.queue)
    (hqueue : ∀ q ∈ t.queue, q ∈ s.queue)
    (hslots : ∀ i, slotAt t.master i = if i = k then some r' else slotAt s.master i)
    (hhandle : r'.fileHandle = r.fileHandle) {h : Int} (hm : Mentions t h) : Mentions s h := by
  rcases hm with ⟨i, x, hx, hh⟩ | ⟨q, hq, hh⟩
  · rw [hslots] at hx
    split at hx
    · cases hx
      exact .inr ⟨r, hr, hhandle.symm.trans hh⟩
    · exact .inl ⟨i, x, hx, hh⟩
  · exact .inr ⟨q, hqueue q hq, hh⟩

/-! ## The two passes -/

/-- A request for a slot of its own. -/
def Request.general (r : Request) : Bool := r.requestedIndex = none

theorem specificPass (l : List Request) : ∀ (pre : List Request) (s : State), Sane s →
    s.queue = pre ++ l → (∀ r ∈ pre, r.general) →
    ∃ t, t = l.foldl (fun s r =>
        if r.requestedIndex = none then s
        else { assignEntry s r with queue := s.queue.erase r }) s ∧
      Sane t ∧ t.queue = pre ++ l.filter Request.general ∧
      (∀ i, (∀ r ∈ l, r.requestedIndex ≠ some i) → slotAt t.master i = slotAt s.master i) ∧
      (∀ r ∈ l, ∀ n, r.requestedIndex = some n → slotAt t.master n = some r) ∧
      ∀ h, Mentions t h → Mentions s h := by
  induction l with
  | nil =>
    intro pre s hs hqueue _
    exact ⟨s, rfl, hs, hqueue, by simp, by simp, fun _ h => h⟩
  | cons r l ih =>
    intro pre s hs hqueue hpre
    cases hr : r.requestedIndex with
    | none =>
      obtain ⟨t, ht, hsane, htqueue, hother, hmine, hfrom⟩ :=
        ih (pre ++ [r]) s hs (by rw [hqueue]; simp) (by
          intro q hq
          rcases List.mem_append.mp hq with hq | hq
          · exact hpre q hq
          · rw [List.mem_singleton.mp hq, Request.general, hr]
            rfl)
      refine ⟨t, by rw [List.foldl_cons, if_pos hr]; exact ht, hsane, ?_, ?_, ?_, hfrom⟩
      · rw [htqueue, List.filter_cons_of_pos (by rw [Request.general, hr]; rfl), List.append_assoc]
        rfl
      · exact fun i hi => hother i fun q hq => hi q (List.mem_cons_of_mem _ hq)
      · intro q hq n hn
        rcases List.mem_cons.mp hq with rfl | hq
        · rw [hr] at hn
          cases hn
        · exact hmine q hq n hn
    | some n =>
      have hnotin : r ∉ pre := by
        intro hmem
        have hgen := hpre r hmem
        rw [Request.general, hr] at hgen
        cases hgen
      have hmem : r ∈ s.queue := by simp [hqueue]
      have hpair := hs.differ
      rw [hqueue, List.pairwise_append, List.pairwise_cons] at hpair
      have hlater : ∀ q ∈ l, q.requestedIndex ≠ some n := fun q hq => hpair.2.1.1 q hq n hr
      let s₁ : State := { assignEntry s r with queue := s.queue.erase r }
      have hqueue₁ : s₁.queue = pre ++ l := by
        change s.queue.erase r = _
        rw [hqueue, List.erase_append_right _ hnotin, List.erase_cons_head]
      have hslots₁ : ∀ i, slotAt s₁.master i = if i = n then some r else slotAt s.master i := by
        intro i
        have hmaster : s₁.master = placeAt s.master n r := by simp [s₁, assignEntry, hr]
        rw [hmaster, slotAt_placeAt]
      have hsane₁ : Sane s₁ := by
        have hempty := hs.free r hmem n hr
        have hun := hs.unassigned r hmem
        refine hs.place (k := n) hqueue hqueue₁ hempty hslots₁ rfl ?_ ?_ ?_ ?_ ?_
        · intro m hm
          rw [hr] at hm
          exact ⟨Option.some.inj hm, hun⟩
        · intro hnone
          rw [hr] at hnone
          cases hnone
        · intro q hq
          rcases List.mem_append.mp hq with hq | hq
          · have hgen := hpre q hq
            rw [Request.general, decide_eq_true_eq] at hgen
            rw [hgen]
            simp
          · exact hlater q hq
        · have hlen : s.master.length ≤ (placeAt s.master n r).length := length_le_placeAt
          have hb := hs.bound
          simp only [s₁, assignEntry, hr]
          exact hb.trans hlen
        · intro i hi
          have hi' : i < s.firstAvail := by simpa [s₁, assignEntry, hr] using hi
          rw [hslots₁]
          split
          · simp
          · exact hs.used i hi'
      obtain ⟨t, ht, hsane, htqueue, hother, hmine, hfrom⟩ := ih pre s₁ hsane₁ hqueue₁ hpre
      refine ⟨t, by rw [List.foldl_cons, if_neg (by simp [hr])]; exact ht, hsane, ?_, ?_, ?_, ?_⟩
      · rw [htqueue, List.filter_cons_of_neg (by rw [Request.general, hr]; simp)]
      · intro i hi
        rw [hother i fun q hq => hi q (List.mem_cons_of_mem _ hq), hslots₁, if_neg]
        rintro rfl
        exact hi r List.mem_cons_self hr
      · intro q hq m hm
        rcases List.mem_cons.mp hq with rfl | hq
        · cases hr.symm.trans hm
          rw [hother n hlater, hslots₁, if_pos rfl]
        · exact hmine q hq m hm
      · intro h hm
        refine mentions_of_place hmem ?_ hslots₁ rfl (hfrom h hm)
        exact fun q hq => List.mem_of_mem_erase hq

theorem generalPass (l : List Request) : ∀ s : State, Sane s → s.queue = l →
    (∀ r ∈ l, r.general) →
    ∃ t is, t = l.foldl (fun s r => { assignEntry s r with queue := s.queue.tail }) s ∧
      Sane t ∧ t.queue = [] ∧
      List.Forall₂ (fun r i => slotAt t.master i = some { r with assignedIndex := some i }) l is ∧
      TakesLowest {i | slotAt s.master i = none} is ∧
      (∀ i, slotAt s.master i ≠ none → slotAt t.master i = slotAt s.master i) ∧
      ∀ h, Mentions t h → Mentions s h := by
  induction l with
  | nil =>
    intro s hs hqueue _
    exact ⟨s, [], rfl, hs, hqueue, .nil, trivial, fun _ _ => rfl, fun _ h => h⟩
  | cons r l ih =>
    intro s hs hqueue hgen
    have hr : r.requestedIndex = none := by
      have h := hgen r List.mem_cons_self
      rwa [Request.general, decide_eq_true_eq] at h
    obtain ⟨hleast, hle⟩ := isLeast_firstEmpty hs.bound hs.used
    generalize hk : firstEmpty (s.master.drop s.firstAvail) s.firstAvail = k at hleast hle
    have hempty : slotAt s.master k = none := hleast.1
    let s₁ : State := { assignEntry s r with queue := s.queue.tail }
    have hslots₁ : ∀ i, slotAt s₁.master i =
        if i = k then some { r with assignedIndex := some k } else slotAt s.master i := by
      intro i
      simp only [s₁, assignEntry, hr, hk]
      by_cases hlen : k = s.master.length
      · rw [if_pos hlen, slotAt_append_one, hlen]
      · rw [if_neg hlen, slotAt_set (by omega)]
    have hqueue₁ : s₁.queue = l := by simp [s₁, hqueue]
    have hsane₁ : Sane s₁ := by
      have hfront : s.queue = [] ++ r :: l := hqueue
      refine hs.place (k := k) hfront hqueue₁ hempty hslots₁ rfl ?_ ?_ ?_ ?_ ?_
      · intro n hn
        rw [hr] at hn
        cases hn
      · exact fun _ => rfl
      · intro q hq
        have h := hgen q (List.mem_cons_of_mem _ hq)
        rw [Request.general, decide_eq_true_eq] at h
        rw [h]
        simp
      · simp only [s₁, assignEntry, hr, hk]
        split
        · simp
          omega
        · simp
          omega
      · intro i hi
        have hi' : i < k := by simpa [s₁, assignEntry, hr, hk] using hi
        rw [hslots₁, if_neg (by omega)]
        intro hnone
        have hki : k ≤ i := hleast.2 hnone
        omega
    obtain ⟨t, is, ht, hsane, htqueue, hall, hlow, hkept, hfrom⟩ :=
      ih s₁ hsane₁ hqueue₁ fun q hq => hgen q (List.mem_cons_of_mem _ hq)
    have hfree : {i | slotAt s₁.master i = none} = {i | slotAt s.master i = none} \ {k} := by
      ext i
      rw [Set.mem_ofPred_eq, hslots₁, Set.mem_sdiff, Set.mem_ofPred_eq, Set.mem_singleton_iff]
      by_cases hik : i = k <;> simp [hik]
    refine ⟨t, k :: is, by rw [List.foldl_cons]; exact ht, hsane, htqueue, ?_, ?_, ?_, ?_⟩
    · refine List.Forall₂.cons ?_ hall
      rw [hkept k (by rw [hslots₁, if_pos rfl]; simp), hslots₁, if_pos rfl]
    · exact ⟨hleast, hfree ▸ hlow⟩
    · intro i hi
      have hik : i ≠ k := fun heq => hi (heq ▸ hempty)
      have hslot : slotAt s₁.master i = slotAt s.master i := by rw [hslots₁, if_neg hik]
      rw [hkept i (by rw [hslot]; exact hi), hslot]
    · intro h hm
      refine mentions_of_place (r := r) (by simp [hqueue]) ?_ hslots₁ rfl (hfrom h hm)
      exact fun q hq => List.mem_of_mem_tail hq

/-! ## Assignment as a whole -/

/-- The specific requests get what they ask for, and the general ones the lowest slots that are
left, in the order of the queue. -/
theorem assign_spec (hs : Sane s) :
    Sane (assignIndices s) ∧ (assignIndices s).queue = [] ∧
      (∀ i, slotAt s.master i ≠ none → slotAt (assignIndices s).master i = slotAt s.master i) ∧
      (∀ r ∈ s.queue, ∀ n, r.requestedIndex = some n →
        slotAt (assignIndices s).master n = some r) ∧
      (∃ is, List.Forall₂
          (fun r i => slotAt (assignIndices s).master i = some { r with assignedIndex := some i })
          (s.queue.filter Request.general) is ∧
        TakesLowest {i | slotAt s.master i = none ∧ ∀ r ∈ s.queue, r.requestedIndex ≠ some i}
          is) ∧
      ∀ h, Mentions (assignIndices s) h → Mentions s h := by
  obtain ⟨u, hu, husane, huqueue, hother, hmine, hfrom⟩ :=
    specificPass s.queue [] s hs rfl (by simp)
  rw [List.nil_append] at huqueue
  obtain ⟨t, is, ht, htsane, htqueue, hall, hlow, hkept, hfrom'⟩ :=
    generalPass u.queue u husane rfl (by
      rw [huqueue]
      exact fun r hr => (List.mem_filter.mp hr).2)
  have heq : assignIndices s = t := by
    have hu' : assignSpecific s = u := hu.symm
    rw [assignIndices, hu', assignGeneral]
    exact ht.symm
  have hfree : {i | slotAt u.master i = none} =
      {i | slotAt s.master i = none ∧ ∀ r ∈ s.queue, r.requestedIndex ≠ some i} := by
    ext i
    rw [Set.mem_ofPred_eq, Set.mem_ofPred_eq]
    by_cases hasked : ∃ r ∈ s.queue, r.requestedIndex = some i
    · obtain ⟨r, hr, hi⟩ := hasked
      refine iff_of_false ?_ fun h => h.2 r hr hi
      rw [hmine r hr i hi]
      simp
    · have hno : ∀ r ∈ s.queue, r.requestedIndex ≠ some i := fun r hr hi => hasked ⟨r, hr, hi⟩
      rw [hother i hno]
      exact ⟨fun h => ⟨h, hno⟩, fun h => h.1⟩
  rw [heq]
  refine ⟨htsane, htqueue, ?_, ?_, ⟨is, ?_, ?_⟩, fun h hm => hfrom h (hfrom' h hm)⟩
  · intro i hi
    have hno : ∀ r ∈ s.queue, r.requestedIndex ≠ some i := fun r hr hasked =>
      hi (hs.free r hr i hasked)
    rw [hkept i (by rw [hother i hno]; exact hi), hother i hno]
  · intro r hr n hn
    have hslot := hmine r hr n hn
    rw [hkept n (by rw [hslot]; simp), hslot]
  · exact huqueue ▸ hall
  · exact hfree ▸ hlow

theorem getIndex_eq (hs : Sane s) {i : Nat} {r : Request} (h : slotAt s.master i = some r) :
    getIndex s r.fileHandle = r.assignedIndex := by
  have hmem : some r ∈ s.master := List.mem_of_getElem? (slotAt_eq_some_iff.mp h)
  have hred : r ∈ s.master.reduceOption := List.reduceOption_mem_iff.mpr hmem
  cases hfind : s.master.reduceOption.find? fun x => x.fileHandle = r.fileHandle with
  | none =>
    have hnone := List.find?_eq_none.mp hfind r hred
    simp at hnone
  | some x =>
    have hhandle : x.fileHandle = r.fileHandle := by simpa using List.find?_some hfind
    have hx : some x ∈ s.master := List.reduceOption_mem_iff.mp (List.mem_of_find?_eq_some hfind)
    obtain ⟨j, hj⟩ := List.getElem?_of_mem hx
    have hslot : slotAt s.master j = some x := slotAt_eq_some_iff.mpr hj
    obtain rfl : j = i := hs.once j i x r hslot h hhandle
    cases hslot.symm.trans h
    rw [getIndex, hfind]
    rfl

end Omap4Hal.Elfload.Dsbt

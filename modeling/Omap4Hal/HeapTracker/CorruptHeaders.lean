import Omap4Hal.HeapTracker.Quarantine

/- Headers that the checks of the heap tracker (heaptracker.c) take for overwritten. The check tells
   its caller through the flag `safe` whether the header may be used. `__del_and_check` tests the
   address of this flag, which is never NULL, so that a header is taken out of its list along its
   own links whatever the flag says.

   Memory is any: headers may have been overwritten before the call or not be headers at all. The
   headers that a call examines are listed (`World.exams`), in the states in which it does;
   `perform_exams` shows them to be those of the call. -/
namespace Omap4Hal.HeapTracker
open Lib
open Function (update)
open World

/-! ## The judgement -/

/-- `*safe` after `check_guards`. -/
def World.guardsSafe (w : World) (hdr : UInt32) : Bool :=
  w.isFrontGuardValid hdr || w.front hdr ⟨0, guardLen_pos⟩ == frontGuard

/-- `*safe` after `__check_allocation`. -/
def World.safe (w : World) (hdr : UInt32) : Bool :=
  let tag := w.tracker.mem.tag hdr
  if tag ≠ allocationTag ∧ tag ≠ backlogTag then false else w.guardsSafe hdr

/-- The tag is one of the two, and the front guard begins as it should. -/
structure Plausible (w : World) (hdr : UInt32) : Prop where
  tag : w.tracker.mem.tag hdr = allocationTag ∨ w.tracker.mem.tag hdr = backlogTag
  front : w.front hdr ⟨0, by decide⟩ = frontGuard

theorem guardsSafe_iff (w : World) (hdr : UInt32) :
    w.guardsSafe hdr = true ↔ w.front hdr ⟨0, by decide⟩ = frontGuard := by
  rw [guardsSafe, Bool.or_eq_true, beq_iff_eq, isFrontGuardValid, decide_eq_true_eq]
  exact or_iff_right_of_imp fun hall => hall _

theorem safe_iff (w : World) (hdr : UInt32) : w.safe hdr = true ↔ Plausible w hdr := by
  rw [World.safe]
  split
  next htag => exact iff_of_false Bool.false_ne_true fun h => h.tag.elim htag.1 htag.2
  next htag =>
    rw [guardsSafe_iff]
    refine ⟨fun hfront => ⟨?_, hfront⟩, fun h => h.front⟩
    rwa [not_and_or, not_not, not_not] at htag

/-! ## What a call examines -/

/-- A header is examined on its way out of the backlog, or as a leak. -/
inductive Exam where
  | backlog (way : Way) (hdr : UInt32)
  | leak (hdr : UInt32)

def Exam.hdr : Exam → UInt32
  | .backlog _ hdr => hdr
  | .leak hdr => hdr

def World.exam (w : World) : Exam → World
  | .backlog way hdr => w.delFromBacklog way hdr
  | .leak hdr => w.delLeak hdr

/-- The loops that take headers out of a list: those of `add_to_backlog` and, one after the other,
of `heaptracker_free_leaked_memory`. -/
inductive Clearing where
  | evict
  | leaks
  | flush

/-- The loop goes on. -/
def Clearing.more (l : Clearing) (w : World) : Bool :=
  match l with
  | .evict => decide (w.tracker.backlogNum > backlogMax)
  | .leaks => w.tracker.live.last.isSome
  | .flush => w.tracker.backlog.last.isSome

/-- The header that is taken out next. -/
def Clearing.gone (l : Clearing) (w : World) : Option UInt32 :=
  match l with
  | .evict => w.tracker.backlog.first
  | .leaks => w.tracker.live.last
  | .flush => w.tracker.backlog.first

def Clearing.exam (l : Clearing) (hdr : UInt32) : Exam :=
  match l with
  | .evict => .backlog .evicted hdr
  | .leaks => .leak hdr
  | .flush => .backlog .flushed hdr

/-- The first passes of a loop: the headers that it examines, each with the state in which it does,
and the state in which it is left, if it is by then. -/
def World.clear (l : Clearing) : Nat → World → List (World × Exam) × Option World
  | 0, w => ([], if l.more w then none else some w)
  | n + 1, w =>
    if l.more w then
      match l.gone w with
      | none => ([], none)
      | some gone =>
        let rest := clear l n ((w.exam (l.exam gone)).release gone)
        ((w, l.exam gone) :: rest.1, rest.2)
    else ([], some w)

/-- `__wrap_free`. -/
def World.freeExams (w : World) (passes : Clearing → Nat) (ptr : UInt32) :
    List (World × Exam) × Option World :=
  if ptr = 0 then ([], some w)
  else
    match del w.tracker (metaOf ptr) with
    | none => ([], some w)
    | some t => (({ w with tracker := t } : World).intoBacklog (metaOf ptr)).clear .evict
        (passes .evict)

/-- `__wrap_realloc`. -/
def World.reallocExams (w : World) (passes : Clearing → Nat) (ptr size : UInt32)
    (r : Option UInt32) : List (World × Exam) × Option World :=
  if size = 0 then w.freeExams passes ptr
  else if ptr = 0 then ([], (w.malloc size r).map Prod.snd)
  else
    match del w.tracker (metaOf ptr) with
    | some t => ([], (({ w with tracker := t } : World).resize (metaOf ptr) size r).map Prod.snd)
    | none =>
      if w.tracker.mem.tag (metaOf ptr) = backlogTag then
        let x := Exam.backlog .pulled (metaOf ptr)
        ([(w, x)], ((w.exam x).resize (metaOf ptr) size r).map Prod.snd)
      else ([], some w)

/-- `heaptracker_free_leaked_memory`. Its loops follow the links: nothing bounds their passes. -/
def World.sweepExams (w : World) (passes : Clearing → Nat) : List (World × Exam) × Option World :=
  match w.clear .leaks (passes .leaks) with
  | (live, none) => (live, none)
  | (live, some w') =>
    let backlog := w'.clear .flush (passes .flush)
    (live ++ backlog.1, backlog.2)

/-- The headers that a call examines in the first passes of its loops, and what it leaves. -/
def World.exams (w : World) (passes : Clearing → Nat) :
    Act → List (World × Exam) × Option World
  | .call (.malloc size r) => ([], (w.malloc size r).map Prod.snd)
  | .call (.calloc nmemb size r) => ([], (w.calloc nmemb size r).map Prod.snd)
  | .call (.realloc ptr size r) => w.reallocExams passes ptr size r
  | .call (.free ptr) => w.freeExams passes ptr
  | .shutdown => w.sweepExams passes

variable {w w' : World} {n : Nat}

theorem clear_of_trim (h : w.trim n = some w') (hn : w.tracker.backlogNum.toNat ≤ n) :
    (w.clear .evict n).2 = some w' := by
  induction n generalizing w with
  | zero =>
    obtain rfl := Option.some.inj h
    have hzero : w.tracker.backlogNum = 0 := UInt32.toNat_inj.mp (Nat.le_zero.mp hn)
    have hmore : Clearing.evict.more w = false := by
      rw [Clearing.more, hzero]
      rfl
    simp [World.clear, hmore]
  | succ n ih =>
    rw [World.trim] at h
    split at h
    next hmore =>
      obtain ⟨gone, hfirst, hrest⟩ := Option.bind_eq_some_iff.mp h
      have hlower : (w.tracker.backlogNum - 1).toNat ≤ n := by
        rw [UInt32.toNat_sub_of_le]
        · have hone : (1 : UInt32).toNat = 1 := rfl
          omega
        · exact UInt32.le_of_lt (UInt32.lt_of_le_of_lt (by decide) hmore)
      have hnext := ih hrest hlower
      have hgone : Clearing.evict.gone w = some gone := hfirst
      have hgoes : Clearing.evict.more w = true := decide_eq_true hmore
      rw [World.clear, if_pos hgoes, hgone]
      exact hnext
    next hdone =>
      cases h
      rw [World.clear, if_neg (by simpa [Clearing.more] using hdone)]

theorem clear_of_freeLive (h : w.freeLive n = some w') : (w.clear .leaks n).2 = some w' := by
  induction n generalizing w with
  | zero =>
    rw [freeLive] at h
    split at h
    next hlast =>
      cases h
      simp [World.clear, Clearing.more, hlast]
    · cases h
  | succ n ih =>
    rw [freeLive] at h
    cases hlast : w.tracker.live.last with
    | none =>
      rw [hlast] at h
      cases h
      simp [World.clear, Clearing.more, hlast]
    | some gone =>
      rw [hlast] at h
      simp only [World.clear, Clearing.more, Clearing.gone, hlast, Option.isSome_some, if_true]
      exact ih h

theorem clear_of_freeBacklog (h : w.freeBacklog n = some w') :
    (w.clear .flush n).2 = some w' := by
  induction n generalizing w with
  | zero =>
    rw [freeBacklog] at h
    split at h
    next hlast =>
      cases h
      simp [World.clear, Clearing.more, hlast]
    · cases h
  | succ n ih =>
    rw [freeBacklog] at h
    split at h
    next hlast =>
      cases h
      simp [World.clear, Clearing.more, hlast]
    next hlast =>
      obtain ⟨gone, hfirst, hrest⟩ := Option.bind_eq_some_iff.mp h
      have hmore : Clearing.flush.more w = true := Option.isSome_iff_ne_none.mpr hlast
      have hgone : Clearing.flush.gone w = some gone := hfirst
      rw [World.clear, if_pos hmore, hgone]
      exact ih hrest

theorem free_exams {ptr : UInt32} (h : w.free ptr = some w') :
    ∃ passes, (w.freeExams passes ptr).2 = some w' := by
  by_cases hptr : ptr = 0
  · rw [World.free, if_pos hptr] at h
    exact ⟨fun _ => 0, by rw [freeExams, if_pos hptr, h]⟩
  · rw [World.free, if_neg hptr] at h
    refine ⟨fun _ => (w.tracker.backlogNum + 1).toNat, ?_⟩
    rw [freeExams, if_neg hptr]
    cases hdel : del w.tracker (metaOf ptr) with
    | none =>
      rw [hdel] at h
      exact h
    | some t =>
      rw [hdel] at h
      have hnum : t.backlogNum = w.tracker.backlogNum := by
        rw [del] at hdel
        split at hdel <;> cases hdel
        rfl
      simp only [World.addToBacklog, hnum] at h
      refine clear_of_trim h (Nat.le_of_eq ?_)
      show (t.backlogNum + 1).toNat = _
      rw [hnum]

/-- A call that `perform` has examines these headers and leaves what it does there. -/
theorem perform_exams {act : Act} (h : w.perform act = some w') :
    ∃ passes, (w.exams passes act).2 = some w' := by
  cases act with
  | call c =>
    cases c with
    | malloc size r => exact ⟨fun _ => 0, h⟩
    | calloc nmemb size r => exact ⟨fun _ => 0, h⟩
    | free ptr => exact free_exams h
    | realloc ptr size r =>
      simp only [World.perform, World.realloc] at h
      simp only [exams, reallocExams]
      by_cases hsize : size = 0
      · rw [if_pos hsize, Option.map_map] at h
        simp only [if_pos hsize]
        exact free_exams (by simpa using h)
      · rw [if_neg hsize] at h
        simp only [if_neg hsize]
        refine ⟨fun _ => 0, ?_⟩
        by_cases hptr : ptr = 0
        · rw [if_pos hptr] at h ⊢
          exact h
        · rw [if_neg hptr] at h ⊢
          cases hdel : del w.tracker (metaOf ptr) with
          | some t =>
            rw [hdel] at h
            exact h
          | none =>
            rw [hdel] at h
            simp only at h ⊢
            split at h
            next htag =>
              rw [if_pos htag]
              exact h
            next htag =>
              rw [if_neg htag]
              exact h
  | shutdown =>
    obtain ⟨u, hlive, hbacklog⟩ := Option.bind_eq_some_iff.mp h
    let passes : Clearing → Nat := fun l =>
      l.casesOn 0 w.tracker.num.toNat u.tracker.backlogNum.toNat
    refine ⟨passes, ?_⟩
    have hleaks : (w.clear .leaks (passes .leaks)).2 = some u := clear_of_freeLive hlive
    have hpair : w.clear .leaks (passes .leaks) =
        ((w.clear .leaks (passes .leaks)).1, some u) := by rw [← hleaks]
    rw [exams, sweepExams, hpair]
    exact clear_of_freeBacklog hbacklog

/-! ## What the flag is for -/

/-- Two trackers with the same lists, as far as they are not written in the header. -/
structure SameBeside (hdr : UInt32) (t t' : Tracker) : Prop where
  live : t'.live = t.live
  backlog : t'.backlog = t.backlog
  links : ∀ a, a ≠ hdr → t'.mem.prev a = t.mem.prev a ∧ t'.mem.next a = t.mem.next a

/-- The state with other links in the header. -/
def World.relink (w : World) (hdr : UInt32) (prev next : Option UInt32) : World :=
  { w with tracker := { w.tracker with mem := { w.tracker.mem with
      prev := update w.tracker.mem.prev hdr prev
      next := update w.tracker.mem.next hdr next } } }

/-- The examination does not write the links of the header, does not depend on them, and leaves the
counters as they are. -/
structure Distrusts (w : World) (x : Exam) : Prop where
  kept : (w.exam x).tracker.mem.prev x.hdr = w.tracker.mem.prev x.hdr ∧
    (w.exam x).tracker.mem.next x.hdr = w.tracker.mem.next x.hdr
  notFollowed : ∀ prev next,
    SameBeside x.hdr (w.exam x).tracker ((w.relink x.hdr prev next).exam x).tracker
  counters : (w.exam x).tracker.num = w.tracker.num ∧
    (w.exam x).tracker.backlogNum = w.tracker.backlogNum

theorem not_distrusts (w : World) (x : Exam) : ¬ Distrusts w x := by
  intro h
  cases x with
  | backlog way hdr => exact sub_one_ne _ h.counters.2
  | leak hdr => exact sub_one_ne _ h.counters.1

/-- The flag is heeded in a call if it is never needed. -/
theorem exams_distrust_iff (w : World) (act : Act) :
    (∀ passes, ∀ y ∈ (w.exams passes act).1, y.1.safe y.2.hdr = false → Distrusts y.1 y.2) ↔
      ∀ passes, ∀ y ∈ (w.exams passes act).1, Plausible y.1 y.2.hdr := by
  refine forall_congr' fun passes => forall₂_congr fun y _ => ?_
  rw [← safe_iff]
  cases y.1.safe y.2.hdr with
  | true => exact iff_of_true nofun rfl
  | false => exact iff_of_false (fun h => not_distrusts y.1 y.2 (h rfl)) Bool.false_ne_true

/-- A tracker with one live block, whose header has been overwritten: its tag is 0, and its `prev`
points to 8. -/
def smashed : World where
  tracker :=
    { mem :=
        { tag := fun _ => 0, prev := fun _ => some 8, next := fun _ => none, size := fun _ => 0 }
      num := 1
      live := ⟨some 4096, some 4096⟩ }
  front _ _ := 0
  body _ _ := 0
  leftFront _ _ := 0
  leftBody _ _ := 0

/-- The sweep unlinks it all the same, and writes to what would be the header at 8. -/
theorem smashed_followed :
    (smashed.exams (fun _ => 1) .shutdown).1.map (fun y => y.2.hdr) = [4096] ∧
      smashed.safe 4096 = false ∧
      ¬ ∀ w passes act, ∀ y ∈ (exams w passes act).1,
        y.1.safe y.2.hdr = false → Distrusts y.1 y.2 := by
  refine ⟨rfl, rfl, fun hall => ?_⟩
  have hmem : (smashed, Exam.leak 4096) ∈ (smashed.exams (fun _ => 1) .shutdown).1 :=
    List.mem_cons_self
  exact not_distrusts _ _ (hall _ _ _ _ hmem rfl)

end Omap4Hal.HeapTracker

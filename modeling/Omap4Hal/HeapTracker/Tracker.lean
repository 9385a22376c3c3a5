import Mathlib.Data.List.Perm.Subperm
import Omap4Hal.Lib.LinkedList
import Omap4Hal.Lib.Run

/- The heap tracker (heaptracker.c): malloc, calloc, realloc and free wrapped so that
   each block has a header in front. The headers of live blocks are linked in one list,
   those of freed blocks in a second one, the backlog, from which the oldest are given
   back to the real allocator.

   A header is known by its address; memory has the fields of the header that would
   stand at each address. `owned` is the set of blocks that the tracker has from the
   real allocator. Memory outside of them belongs to somebody else: before every call
   it is overwritten with anything (`Event.wild`). What the real allocator answers is
   an argument of each call. A write past the end of a block and an answer that the
   real allocator cannot give are calls that do not return (`none`).

   Guards, backtraces and the poison in the user's bytes only decide what is logged;
   they are left out.

   `trackerInv_iff` says over which runs the two lists stay in order. -/
namespace Omap4Hal.HeapTracker

open Lib
open Function (update update_self update_of_ne)
open UInt32 (le_iff_toNat_le toNat_inj toNat_one toNat_sub)

/-! ## State -/

def allocationTag : UInt32 := 0x1ee7d00d
def backlogTag : UInt32 := 0xbabecafe
def backlogMax : UInt32 := 50

/-- `sizeof(struct hdr)` and `sizeof(struct ftr)`. -/
def hdrLen : UInt32 := 160
def ftrLen : UInt32 := 16

def user (hdr : UInt32) : UInt32 := hdr + hdrLen

/-- `meta`. -/
def metaOf (ptr : UInt32) : UInt32 := ptr - hdrLen

/-- The header fields, by the address of the header. -/
structure Mem where
  tag : UInt32 → UInt32
  prev : UInt32 → Option UInt32
  next : UInt32 → Option UInt32
  size : UInt32 → UInt32

/-- The two pointers of a list: new headers come in at `last`. -/
structure Ends where
  first : Option UInt32 := none
  last : Option UInt32 := none

structure Tracker where
  mem : Mem
  owned : UInt32 → Bool := fun _ => false
  num : UInt32 := 0
  live : Ends := {}
  backlogNum : UInt32 := 0
  backlog : Ends := {}

/-! ## The linked lists -/

/-- `__add`. -/
def addTo (m : Mem) (e : Ends) (hdr : UInt32) : Mem × Ends :=
  let m := { m with prev := update m.prev hdr none, next := update m.next hdr e.last }
  match e.last with
  | some l => ({ m with prev := update m.prev l (some hdr) }, { e with last := some hdr })
  | none => (m, { first := some hdr, last := some hdr })

/-- `__del`. -/
def delFrom (m : Mem) (e : Ends) (hdr : UInt32) : Mem × Ends :=
  let (m, e) :=
    match m.prev hdr with
    | some p => ({ m with next := update m.next p (m.next hdr) }, e)
    | none => (m, { e with last := m.next hdr })
  match m.next hdr with
  | some n => ({ m with prev := update m.prev n (m.prev hdr) }, e)
  | none => (m, { e with first := m.prev hdr })

def Tracker.setTag (t : Tracker) (hdr tag : UInt32) : Tracker :=
  { t with mem := { t.mem with tag := update t.mem.tag hdr tag } }

def add (t : Tracker) (hdr size : UInt32) : Tracker :=
  let t := t.setTag hdr allocationTag
  let t := { t with mem := { t.mem with size := update t.mem.size hdr size }, num := t.num + 1 }
  let r := addTo t.mem t.live hdr
  { t with mem := r.1, live := r.2 }

/-- `none` is the answer -1. -/
def del (t : Tracker) (hdr : UInt32) : Option Tracker :=
  if t.mem.tag hdr ≠ allocationTag then none
  else
    let r := delFrom t.mem t.live hdr
    some { t with mem := r.1, live := r.2, num := t.num - 1 }

/-- The test `if (safe)` is on the address of the flag, not on the flag: the header is
taken out whatever the check has found. -/
def delFromBacklog (t : Tracker) (hdr : UInt32) : Tracker :=
  let r := delFrom t.mem t.backlog hdr
  ({ t with mem := r.1, backlog := r.2, backlogNum := t.backlogNum - 1 } : Tracker).setTag hdr 0

/-- `__real_free`. -/
def release (t : Tracker) (hdr : UInt32) : Tracker :=
  { t with owned := update t.owned hdr false }

/-- The loop of `add_to_backlog`. Each pass lowers `backlog_num`, which therefore bounds
the number of passes. -/
def trim : Nat → Tracker → Option Tracker
  | 0, t => some t
  | n + 1, t =>
    if t.backlogNum > backlogMax then do
      let gone ← t.backlog.first
      trim n (release (delFromBacklog t gone) gone)
    else some t

def addToBacklog (t : Tracker) (hdr : UInt32) : Option Tracker :=
  let t := { t.setTag hdr backlogTag with backlogNum := t.backlogNum + 1 }
  let r := addTo t.mem t.backlog hdr
  trim t.backlogNum.toNat { t with mem := r.1, backlog := r.2 }

/-! ## The wrapped functions -/

/-- The block that is asked for is as large as what is written into it. -/
def Fits (size : UInt32) : Prop := hdrLen.toNat + size.toNat + ftrLen.toNat < 2 ^ 32

instance (size : UInt32) : Decidable (Fits size) := inferInstanceAs (Decidable (_ < _))

/-- A block that the real allocator can hand out. -/
def Fresh (t : Tracker) (a : UInt32) : Prop := a ≠ 0 ∧ t.owned a = false

instance (t : Tracker) (a : UInt32) : Decidable (Fresh t a) :=
  inferInstanceAs (Decidable (_ ∧ _))

/-- A block of the real allocator is made into a tracked one. -/
def track (t : Tracker) (hdr size : UInt32) : Option (UInt32 × Tracker) :=
  if Fits size then some (user hdr, add { t with owned := update t.owned hdr true } hdr size)
  else none

/-- `__wrap_malloc`; `r` is what `__real_malloc` returns. -/
def malloc (t : Tracker) (size : UInt32) (r : Option UInt32) : Option (UInt32 × Tracker) :=
  match r with
  | none => some (0, t)
  | some hdr => if Fresh t hdr then track t hdr size else none

/-- `__wrap_calloc`. -/
def calloc (t : Tracker) (nmemb size : UInt32) (r : Option UInt32) :
    Option (UInt32 × Tracker) :=
  malloc t (nmemb * size) r

/-- `__wrap_free`. -/
def free (t : Tracker) (ptr : UInt32) : Option Tracker :=
  if ptr = 0 then some t
  else
    match del t (metaOf ptr) with
    | none => some t
    | some t => addToBacklog t (metaOf ptr)

/-- `__real_realloc` of a header, and the tracking of its answer. -/
def resize (t : Tracker) (hdr size : UInt32) (r : Option UInt32) : Option (UInt32 × Tracker) :=
  if t.owned hdr = false then none
  else
    match r with
    | none => some (0, t)
    | some a =>
      if a = hdr then track t a size
      else if Fresh t a then track (release t hdr) a size
      else none

/-- `__wrap_realloc`. -/
def realloc (t : Tracker) (ptr size : UInt32) (r : Option UInt32) :
    Option (UInt32 × Tracker) :=
  if size = 0 then (free t ptr).map fun t => (0, t)
  else if ptr = 0 then malloc t size r
  else
    match del t (metaOf ptr) with
    | some t => resize t (metaOf ptr) size r
    | none =>
      if t.mem.tag (metaOf ptr) = backlogTag then
        resize (delFromBacklog t (metaOf ptr)) (metaOf ptr) size r
      -- a whole new block, which is not tracked
      else some (r.getD 0, t)

/-! ## Runs -/

inductive Call where
  | malloc (size : UInt32) (r : Option UInt32)
  | calloc (nmemb size : UInt32) (r : Option UInt32)
  | realloc (ptr size : UInt32) (r : Option UInt32)
  | free (ptr : UInt32)

structure Event where
  wild : Mem
  call : Call

/-- Memory that is not the tracker's has been written by others. -/
def Tracker.scribble (t : Tracker) (w : Mem) : Tracker :=
  { t with mem :=
    { tag := fun a => if t.owned a then t.mem.tag a else w.tag a
      prev := fun a => if t.owned a then t.mem.prev a else w.prev a
      next := fun a => if t.owned a then t.mem.next a else w.next a
      size := fun a => if t.owned a then t.mem.size a else w.size a } }

def perform (t : Tracker) : Call → Option Tracker
  | .malloc size r => (malloc t size r).map Prod.snd
  | .calloc nmemb size r => (calloc t nmemb size r).map Prod.snd
  | .realloc ptr size r => (realloc t ptr size r).map Prod.snd
  | .free ptr => free t ptr

def step (t : Tracker) (e : Event) : Option Tracker := perform (t.scribble e.wild) e.call

/-! ## What the lists are for -/

/-- The two pointers and the links of the headers make up the list `l`. -/
structure Holds (m : Mem) (e : Ends) (l : List UInt32) : Prop where
  linked : Linked m.next m.prev none l none
  nodup : l.Nodup
  last : e.last = l.head?
  first : e.first = l.getLast?

/-- Both lists are in order, with no header in common and with their lengths counted,
and the tag of a header says in which of them it is. -/
structure Lists (t : Tracker) (ls bs : List UInt32) : Prop where
  live : Holds t.mem t.live ls
  backlog : Holds t.mem t.backlog bs
  disjoint : ∀ h ∈ ls, h ∉ bs
  num : t.num.toNat = ls.length
  backlogNum : t.backlogNum.toNat = bs.length
  tagLive : ∀ h, h ∈ ls ↔ t.owned h = true ∧ t.mem.tag h = allocationTag
  tagBacklog : ∀ h, h ∈ bs ↔ t.owned h = true ∧ t.mem.tag h = backlogTag

def TrackerInv (t : Tracker) : Prop :=
  ∃ ls bs, Lists t ls bs ∧ t.backlogNum ≤ backlogMax

/-- The real allocator's answer to a request for a new block is one it can give, and the
size of the request does not wrap around. -/
def GrantOk (t : Tracker) (size : UInt32) (r : Option UInt32) : Prop :=
  ∀ hdr, r = some hdr → Fresh t hdr ∧ Fits size

/-- The pointer is of a block that the tracker has, or what stands in front of it is not
taken for a live block. -/
def FreeOk (t : Tracker) (ptr : UInt32) : Prop :=
  ptr ≠ 0 → t.owned (metaOf ptr) = true ∨ t.mem.tag (metaOf ptr) ≠ allocationTag

/-- The same for both tags; the real allocator's answer is one it can give, the size
does not wrap around, and for a live block the answer is not NULL. -/
def ResizeOk (t : Tracker) (hdr size : UInt32) (r : Option UInt32) : Prop :=
  t.mem.tag hdr = allocationTag ∨ t.mem.tag hdr = backlogTag →
    t.owned hdr = true ∧ (t.mem.tag hdr = allocationTag → r ≠ none) ∧
      ∀ a, r = some a → (a = hdr ∨ Fresh t a) ∧ Fits size

def CallOk (t : Tracker) : Call → Prop
  | .malloc size r => GrantOk t size r
  | .calloc nmemb size r => GrantOk t (nmemb * size) r
  | .free ptr => FreeOk t ptr
  | .realloc ptr size r =>
    if size = 0 then FreeOk t ptr
    else if ptr = 0 then GrantOk t size r
    else ResizeOk t (metaOf ptr) size r

def EventOk (t : Tracker) (e : Event) : Prop := CallOk (t.scribble e.wild) e.call

/-! ## The linked lists, one operation at a time -/

variable {m : Mem} {e : Ends} {l as bs cs ls : List UInt32} {hdr size ptr : UInt32} {t t' : Tracker}
  {r : Option UInt32} {x : UInt32 × Tracker}

theorem Holds.congr {m' : Mem} (h : Holds m e l) (hn : ∀ x ∈ l, m'.next x = m.next x)
    (hp : ∀ x ∈ l, m'.prev x = m.prev x) :
    Holds m' e l :=
  ⟨h.linked.congr hn hp, h.nodup, h.last, h.first⟩

theorem addTo_eq (m : Mem) (e : Ends) (hdr : UInt32) :
    addTo m e hdr =
      ({ m with
          prev := fun x => if e.last = some x then some hdr else if x = hdr then none else m.prev x
          next := update m.next hdr e.last },
        { first := if e.last = none then some hdr else e.first, last := some hdr }) := by
  rw [addTo]
  cases hl : e.last with
  | none =>
    simp only [reduceCtorEq, if_false, if_true]
    congr
    funext x
    rw [Function.update_apply]
  | some l =>
    simp only [reduceCtorEq, if_false]
    congr
    funext x
    by_cases hxl : x = l
    · simp [hxl]
    · simp [Function.update_apply, hxl, Ne.symm hxl]

/-- What `delFrom` leaves behind: the neighbours are linked to each other. -/
theorem delFrom_eq (m : Mem) (e : Ends) (hdr : UInt32) :
    delFrom m e hdr =
      ({ m with
          prev := fun x => if m.next hdr = some x then m.prev hdr else m.prev x
          next := fun x => if m.prev hdr = some x then m.next hdr else m.next x },
        { first := if m.next hdr = none then m.prev hdr else e.first
          last := if m.prev hdr = none then m.next hdr else e.last }) := by
  have hpatch : ∀ (f : UInt32 → Option UInt32) (a : UInt32) (v : Option UInt32),
      update f a v = fun x => if some a = some x then v else f x := by
    intro f a v
    funext x
    by_cases hxa : x = a
    · simp [hxa]
    · simp [hxa, Ne.symm hxa]
  have hnext : ∀ p, update m.next p (m.next hdr) hdr = m.next hdr := by
    intro p
    by_cases hp : hdr = p
    · rw [← hp, update_self]
    · rw [update_of_ne hp]
  rw [delFrom]
  cases hp : m.prev hdr with
  | none => cases hn : m.next hdr <;> simp [hp, hn, hpatch]
  | some p =>
    simp only [hnext]
    cases m.next hdr <;> simp [hp, hpatch]

theorem Holds.add (h : Holds m e l) (hnew : hdr ∉ l) :
    Holds (addTo m e hdr).1 (addTo m e hdr).2 (hdr :: l) := by
  have hnodup : (hdr :: l).Nodup := List.nodup_cons.mpr ⟨hnew, h.nodup⟩
  have hne : ∀ x ∈ l, x ≠ hdr := fun x hx hxh => hnew (hxh ▸ hx)
  rw [addTo_eq]
  refine ⟨?_, hnodup, rfl, ?_⟩
  · change Linked _ _ none ([] ++ hdr :: l) none
    apply Linked.insert (linked_nil (e := none)) h.linked hnodup
    · simp [h.last]
    · have hhead : l.head? ≠ some hdr := fun hhead => hnew (List.mem_of_head? hhead)
      simp [h.last, hhead]
    · intro x hx
      simp [update_of_ne (hne x hx)]
    · intro x hx
      simp [h.last, hne x hx]
  · simp only [h.last, h.first]
    cases l with
    | nil => rfl
    | cons y ys => simp

theorem Holds.del (h : Holds m e (as ++ hdr :: bs)) :
    Holds (delFrom m e hdr).1 (delFrom m e hdr).2 (as ++ bs) := by
  obtain ⟨hnext, hprev⟩ := h.linked.neighbours
  have hnodup : (as ++ bs).Nodup :=
    h.nodup.sublist (List.sublist_append_right [hdr] bs |>.append_left as)
  rw [delFrom_eq]
  refine ⟨?_, hnodup, ?_, ?_⟩
  · apply h.linked.remove h.nodup
    · intro x _
      simp only [hnext, hprev]
    · intro x _
      simp only [hnext, hprev]
  · simp only [hnext, hprev, h.last]
    cases as with
    | nil => simp
    | cons a as => simp [List.getLast?_cons]
  · simp only [hnext, hprev, h.first]
    cases bs with
    | nil => simp
    | cons b bs => simp [List.getLast?_append]

theorem Holds.add_other (h : Holds m e l) {x : UInt32} (hx : x ∉ l) (hne : x ≠ hdr) :
    (addTo m e hdr).1.next x = m.next x ∧ (addTo m e hdr).1.prev x = m.prev x := by
  have hhead : e.last ≠ some x := by
    rw [h.last]
    intro hhead
    exact hx (List.mem_of_head? hhead)
  rw [addTo_eq]
  exact ⟨update_of_ne hne _ _, by simp [hhead, hne]⟩

theorem Holds.del_other {x : UInt32} (h : Holds m e (as ++ hdr :: bs)) (hx : x ∉ as ++ hdr :: bs) :
    (delFrom m e hdr).1.next x = m.next x ∧ (delFrom m e hdr).1.prev x = m.prev x := by
  obtain ⟨hnext, hprev⟩ := h.linked.neighbours
  rw [delFrom_eq]
  refine ⟨if_neg ?_, if_neg ?_⟩
  · rw [hprev]
    intro hlast
    exact hx (List.mem_append_left _ (List.mem_of_getLast? hlast))
  · rw [hnext]
    intro hhead
    exact hx (List.mem_append_right _ (List.mem_cons_of_mem _ (List.mem_of_head? hhead)))

theorem addTo_tag (m : Mem) (e : Ends) (hdr : UInt32) : (addTo m e hdr).1.tag = m.tag := by
  rw [addTo_eq]

theorem delFrom_tag (m : Mem) (e : Ends) (hdr : UInt32) : (delFrom m e hdr).1.tag = m.tag := by
  rw [delFrom_eq]

theorem delFromBacklog_tag (t : Tracker) (hdr : UInt32) :
    (delFromBacklog t hdr).mem.tag = update t.mem.tag hdr 0 := by
  rw [← delFrom_tag t.mem t.backlog hdr]
  rfl

theorem toNat_succ {n : UInt32} {k : Nat} (h : n.toNat = k) (hk : k + 1 < 2 ^ 32) :
    (n + 1).toNat = k + 1 := by
  rw [UInt32.toNat_add, h, toNat_one]
  exact Nat.mod_eq_of_lt hk

theorem toNat_pred {n : UInt32} {k : Nat} (h : n.toNat = k + 1) : (n - 1).toNat = k := by
  have hlt := n.toNat_lt
  rw [toNat_sub, h, toNat_one]
  omega

theorem length_lt (hnodup : l.Nodup) (h0 : 0 ∉ l) : l.length < 2 ^ 32 := by
  have hnd : ((0 :: l).map UInt32.toNat).Nodup :=
    (List.nodup_cons.mpr ⟨h0, hnodup⟩).map fun a b hab => toNat_inj.mp hab
  have hsub : (0 :: l).map UInt32.toNat ⊆ List.range (2 ^ 32) := by
    intro n hn
    obtain ⟨a, _, rfl⟩ := List.mem_map.mp hn
    exact List.mem_range.mpr a.toNat_lt
  have hle := (List.subperm_of_subset hnd hsub).length_le
  rw [List.length_map, List.length_cons, List.length_range] at hle
  exact hle

/-! ## The two lists while a header is moved -/

/-- The lists as in `Lists`, while one header is in neither, whatever its tag says. -/
structure ListsOff (t : Tracker) (hdr : UInt32) (ls bs : List UInt32) : Prop where
  live : Holds t.mem t.live ls
  backlog : Holds t.mem t.backlog bs
  disjoint : ∀ h ∈ ls, h ∉ bs
  num : t.num.toNat = ls.length
  backlogNum : t.backlogNum.toNat = bs.length
  offLive : hdr ∉ ls
  offBacklog : hdr ∉ bs
  tagLive : ∀ h, h ≠ hdr → (h ∈ ls ↔ t.owned h = true ∧ t.mem.tag h = allocationTag)
  tagBacklog : ∀ h, h ≠ hdr → (h ∈ bs ↔ t.owned h = true ∧ t.mem.tag h = backlogTag)

theorem tags_ne : allocationTag ≠ backlogTag ∧ allocationTag ≠ 0 ∧ backlogTag ≠ 0 := by decide

theorem Holds.middle (h : Holds m e (as ++ hdr :: cs)) :
    hdr ∉ as ++ cs ∧ (∀ x, x ∈ as ++ hdr :: cs ↔ x = hdr ∨ x ∈ as ++ cs) ∧
      (as ++ hdr :: cs).length = (as ++ cs).length + 1 := by
  have hmid := List.nodup_middle.mp h.nodup
  refine ⟨(List.nodup_cons.mp hmid).1, ?_, ?_⟩
  · intro x
    rw [List.mem_append, List.mem_append, List.mem_cons]
    tauto
  · rw [List.length_append, List.length_append, List.length_cons]
    rfl

theorem Lists.offLive (h : Lists t (as ++ hdr :: cs) bs) :
    ListsOff { t with
      mem := (delFrom t.mem t.live hdr).1
      live := (delFrom t.mem t.live hdr).2
      num := t.num - 1 } hdr (as ++ cs) bs := by
  obtain ⟨hout, hmem, hlength⟩ := h.live.middle
  have hother : ∀ x ∈ bs, x ∉ as ++ hdr :: cs := fun x hx hl => h.disjoint x hl hx
  have hbacklog : hdr ∉ bs := h.disjoint hdr ((hmem hdr).mpr (.inl rfl))
  refine ⟨h.live.del, ?_, ?_, ?_, h.backlogNum, hout, hbacklog, ?_, ?_⟩
  · apply h.backlog.congr
    · intro x hx
      exact (h.live.del_other (hother x hx)).1
    · intro x hx
      exact (h.live.del_other (hother x hx)).2
  · intro x hx
    exact h.disjoint x ((hmem x).mpr (.inr hx))
  · exact toNat_pred (h.num.trans hlength)
  · intro x hx
    rw [delFrom_tag, ← h.tagLive x, hmem]
    simp [hx]
  · intro x _
    rw [delFrom_tag, ← h.tagBacklog x]

theorem Lists.offBacklog (h : Lists t ls (as ++ hdr :: cs)) :
    ListsOff (delFromBacklog t hdr) hdr ls (as ++ cs) := by
  obtain ⟨hout, hmem, hlength⟩ := h.backlog.middle
  have hother : ∀ x ∈ ls, x ∉ as ++ hdr :: cs := h.disjoint
  have hlive : hdr ∉ ls := fun hl => h.disjoint hdr hl ((hmem hdr).mpr (.inl rfl))
  have hholds := h.backlog.del
  refine ⟨?_, ⟨hholds.linked, hholds.nodup, hholds.last, hholds.first⟩, ?_, h.num, ?_, hlive,
    hout, ?_, ?_⟩
  · apply h.live.congr
    · intro x hx
      exact (h.backlog.del_other (hother x hx)).1
    · intro x hx
      exact (h.backlog.del_other (hother x hx)).2
  · intro x hx hxb
    exact h.disjoint x hx ((hmem x).mpr (.inr hxb))
  · exact toNat_pred (h.backlogNum.trans hlength)
  · intro x hx
    rw [delFromBacklog_tag, update_of_ne hx]
    exact h.tagLive x
  · intro x hx
    have htag := h.tagBacklog x
    rw [hmem] at htag
    rw [delFromBacklog_tag, update_of_ne hx]
    exact (or_iff_right hx).symm.trans htag

theorem ListsOff.add (h : ListsOff t hdr ls bs) (hown : t.owned hdr = true) (h0 : t.owned 0 = false)
    (size : UInt32) :
    Lists (add t hdr size) (hdr :: ls) bs := by
  have hother : ∀ x ∈ bs, x ∉ ls ∧ x ≠ hdr :=
    fun x hx => ⟨fun hl => h.disjoint x hl hx, fun hxh => h.offBacklog (hxh ▸ hx)⟩
  have htag : (HeapTracker.add t hdr size).mem.tag = update t.mem.tag hdr allocationTag := by
    rw [HeapTracker.add]
    exact addTo_tag _ _ _
  have hlive : Holds { t.mem with
      tag := update t.mem.tag hdr allocationTag
      size := update t.mem.size hdr size } t.live ls :=
    ⟨h.live.linked, h.live.nodup, h.live.last, h.live.first⟩
  have hadd := hlive.add h.offLive
  refine ⟨hadd, ?_, ?_, ?_, h.backlogNum, ?_, ?_⟩
  · apply h.backlog.congr
    · intro x hx
      exact (hlive.add_other (hother x hx).1 (hother x hx).2).1
    · intro x hx
      exact (hlive.add_other (hother x hx).1 (hother x hx).2).2
  · intro x hx
    rcases List.mem_cons.mp hx with rfl | hx
    · exact h.offBacklog
    · exact h.disjoint x hx
  · apply toNat_succ h.num
    have hnot : (0 : UInt32) ∉ hdr :: ls := by
      intro hmem
      rcases List.mem_cons.mp hmem with hz | hz
      · rw [← hz, h0] at hown
        cases hown
      · have hne : (0 : UInt32) ≠ hdr := by
          intro hz'
          rw [← hz', h0] at hown
          cases hown
        have howned := ((h.tagLive 0 hne).mp hz).1
        rw [h0] at howned
        cases howned
    exact length_lt hadd.nodup hnot
  · intro x
    rw [htag]
    by_cases hx : x = hdr
    · subst hx
      simp only [List.mem_cons_self, update_self, true_iff, and_true]
      exact hown
    · rw [update_of_ne hx, List.mem_cons, or_iff_right hx]
      exact h.tagLive x hx
  · intro x
    rw [htag]
    by_cases hx : x = hdr
    · subst hx
      simp only [update_self, tags_ne.1, and_false, iff_false]
      exact h.offBacklog
    · rw [update_of_ne hx]
      exact h.tagBacklog x hx

/-- `addToBacklog` up to its loop. -/
def intoBacklog (t : Tracker) (hdr : UInt32) : Tracker :=
  let t := { t.setTag hdr backlogTag with backlogNum := t.backlogNum + 1 }
  { t with mem := (addTo t.mem t.backlog hdr).1, backlog := (addTo t.mem t.backlog hdr).2 }

theorem addToBacklog_eq (t : Tracker) (hdr : UInt32) :
    addToBacklog t hdr = trim (t.backlogNum + 1).toNat (intoBacklog t hdr) := rfl

theorem intoBacklog_tag (t : Tracker) (hdr : UInt32) :
    (intoBacklog t hdr).mem.tag = update t.mem.tag hdr backlogTag := by
  rw [intoBacklog]
  exact addTo_tag _ _ _

theorem ListsOff.intoBacklog (h : ListsOff t hdr ls bs) (hown : t.owned hdr = true)
    (hle : t.backlogNum ≤ backlogMax) :
    Lists (intoBacklog t hdr) ls (hdr :: bs) := by
  have hother : ∀ x ∈ ls, x ∉ bs ∧ x ≠ hdr :=
    fun x hx => ⟨h.disjoint x hx, fun hxh => h.offLive (hxh ▸ hx)⟩
  have hbacklog : Holds { t.mem with tag := update t.mem.tag hdr backlogTag } t.backlog bs :=
    ⟨h.backlog.linked, h.backlog.nodup, h.backlog.last, h.backlog.first⟩
  refine ⟨?_, hbacklog.add h.offBacklog, ?_, h.num, ?_, ?_, ?_⟩
  · apply h.live.congr
    · intro x hx
      exact (hbacklog.add_other (hother x hx).1 (hother x hx).2).1
    · intro x hx
      exact (hbacklog.add_other (hother x hx).1 (hother x hx).2).2
  · intro x hx hxb
    rcases List.mem_cons.mp hxb with rfl | hxb
    · exact h.offLive hx
    · exact h.disjoint x hx hxb
  · apply toNat_succ h.backlogNum
    rw [← h.backlogNum]
    have hmax : t.backlogNum.toNat ≤ 50 := le_iff_toNat_le.mp hle
    omega
  · intro x
    rw [intoBacklog_tag]
    by_cases hx : x = hdr
    · subst hx
      simp only [update_self, Ne.symm tags_ne.1, and_false, iff_false]
      exact h.offLive
    · rw [update_of_ne hx]
      exact h.tagLive x hx
  · intro x
    rw [intoBacklog_tag]
    by_cases hx : x = hdr
    · subst hx
      simp only [List.mem_cons_self, update_self, true_iff, and_true]
      exact hown
    · rw [update_of_ne hx, List.mem_cons, or_iff_right hx]
      exact h.tagBacklog x hx

theorem ListsOff.release (h : ListsOff t hdr ls bs) : Lists (release t hdr) ls bs := by
  refine ⟨h.live, h.backlog, h.disjoint, h.num, h.backlogNum, ?_, ?_⟩
  · intro x
    by_cases hx : x = hdr
    · subst hx
      simp [HeapTracker.release, h.offLive]
    · simp only [HeapTracker.release, update_of_ne hx]
      exact h.tagLive x hx
  · intro x
    by_cases hx : x = hdr
    · subst hx
      simp [HeapTracker.release, h.offBacklog]
    · simp only [HeapTracker.release, update_of_ne hx]
      exact h.tagBacklog x hx

theorem ListsOff.untagged (h : ListsOff t hdr ls bs) (htag : t.mem.tag hdr = 0) :
    Lists t ls bs := by
  refine ⟨h.live, h.backlog, h.disjoint, h.num, h.backlogNum, ?_, ?_⟩
  · intro x
    by_cases hx : x = hdr
    · subst hx
      simp [htag, h.offLive, Ne.symm tags_ne.2.1]
    · exact h.tagLive x hx
  · intro x
    by_cases hx : x = hdr
    · subst hx
      simp [htag, h.offBacklog, Ne.symm tags_ne.2.2]
    · exact h.tagBacklog x hx

theorem Lists.fresh (h : Lists t ls bs) {a : UInt32} (ha : t.owned a = false) :
    ListsOff { t with owned := update t.owned a true } a ls bs := by
  refine ⟨h.live, h.backlog, h.disjoint, h.num, h.backlogNum, ?_, ?_, ?_, ?_⟩
  · intro hmem
    rw [((h.tagLive a).mp hmem).1] at ha
    cases ha
  · intro hmem
    rw [((h.tagBacklog a).mp hmem).1] at ha
    cases ha
  · intro x hx
    simp only [update_of_ne hx]
    exact h.tagLive x
  · intro x hx
    simp only [update_of_ne hx]
    exact h.tagBacklog x

theorem Lists.scribble (h : Lists t ls bs) (w : Mem) :
    Lists (t.scribble w) ls bs := by
  have hlive : ∀ x ∈ ls, t.owned x = true := fun x hx => ((h.tagLive x).mp hx).1
  have hbacklog : ∀ x ∈ bs, t.owned x = true := fun x hx => ((h.tagBacklog x).mp hx).1
  refine ⟨h.live.congr ?_ ?_, h.backlog.congr ?_ ?_, h.disjoint, h.num, h.backlogNum, ?_, ?_⟩
  · intro x hx
    exact if_pos (hlive x hx)
  · intro x hx
    exact if_pos (hlive x hx)
  · intro x hx
    exact if_pos (hbacklog x hx)
  · intro x hx
    exact if_pos (hbacklog x hx)
  · intro x
    rw [h.tagLive x]
    by_cases hx : t.owned x = true <;> simp [Tracker.scribble, hx]
  · intro x
    rw [h.tagBacklog x]
    by_cases hx : t.owned x = true <;> simp [Tracker.scribble, hx]

/-! ## The loop of the backlog -/

theorem trim_done (h : t.backlogNum ≤ backlogMax) (n : Nat) : trim n t = some t := by
  cases n with
  | zero => rfl
  | succ n => exact if_neg (UInt32.not_lt.mpr h)

theorem Lists.evict {gone : UInt32} (h : Lists t ls (bs ++ [gone])) :
    t.backlog.first = some gone ∧ Lists (release (delFromBacklog t gone) gone) ls bs := by
  refine ⟨?_, ?_⟩
  · rw [h.backlog.first, List.getLast?_concat]
  · have hoff := h.offBacklog
    rw [List.append_nil] at hoff
    exact hoff.release

theorem trim_lists {n : Nat} (h : Lists t ls bs) (hn : bs.length ≤ n + 50) :
    ∃ t', trim n t = some t' ∧ TrackerInv t' := by
  induction n generalizing t bs with
  | zero =>
    refine ⟨t, rfl, ls, bs, h, ?_⟩
    have hmax : backlogMax.toNat = 50 := rfl
    rw [le_iff_toNat_le, h.backlogNum, hmax]
    simpa using hn
  | succ n ih =>
    by_cases hle : t.backlogNum ≤ backlogMax
    · exact ⟨t, trim_done hle _, ls, bs, h, hle⟩
    · have hlt : backlogMax < t.backlogNum := UInt32.not_le.mp hle
      have hlen : 50 < bs.length := by
        rw [← h.backlogNum]
        exact UInt32.lt_iff_toNat_lt.mp hlt
      -- the backlog is not empty, and its oldest header is `backlog_first`
      obtain ⟨init, gone, rfl⟩ : ∃ init gone, bs = init ++ [gone] := by
        rcases List.eq_nil_or_concat bs with rfl | ⟨init, gone, hbs⟩
        · simp at hlen
        · exact ⟨init, gone, by rw [hbs, List.concat_eq_append]⟩
      obtain ⟨hfirst, hevict⟩ := h.evict
      obtain ⟨t', ht', hinv⟩ := ih hevict (by simpa using hn)
      refine ⟨t', ?_, hinv⟩
      rw [trim, if_pos hlt, hfirst]
      exact ht'

/-! ## The calls keep the lists in order -/

theorem del_live (htag : t.mem.tag hdr = allocationTag) :
    del t hdr = some { t with
      mem := (delFrom t.mem t.live hdr).1
      live := (delFrom t.mem t.live hdr).2
      num := t.num - 1 } := by
  rw [del, if_neg (by simpa using htag)]

theorem del_other (htag : t.mem.tag hdr ≠ allocationTag) :
    del t hdr = none := if_pos htag

theorem Lists.takeLive (h : Lists t ls bs) (hown : t.owned hdr = true)
    (htag : t.mem.tag hdr = allocationTag) :
    ∃ t' ls', del t hdr = some t' ∧ ListsOff t' hdr ls' bs ∧ t'.owned = t.owned ∧
      t'.backlogNum = t.backlogNum ∧ t'.mem.tag = t.mem.tag ∧ t'.num = t.num - 1 := by
  obtain ⟨as, cs, rfl⟩ := List.append_of_mem ((h.tagLive hdr).mpr ⟨hown, htag⟩)
  exact ⟨_, as ++ cs, del_live htag, h.offLive, rfl, rfl, delFrom_tag _ _ _, rfl⟩

theorem Lists.takeBacklog (h : Lists t ls bs) (hown : t.owned hdr = true)
    (htag : t.mem.tag hdr = backlogTag) :
    ∃ bs', ListsOff (delFromBacklog t hdr) hdr ls bs' ∧ bs'.length < bs.length := by
  obtain ⟨as, cs, rfl⟩ := List.append_of_mem ((h.tagBacklog hdr).mpr ⟨hown, htag⟩)
  refine ⟨as ++ cs, h.offBacklog, ?_⟩
  rw [h.backlog.middle.2.2]
  exact Nat.lt_succ_self _

theorem track_lists (h : ListsOff { t with owned := update t.owned hdr true } hdr ls bs)
    (hne : hdr ≠ 0) (h0 : t.owned 0 = false) (hle : t.backlogNum ≤ backlogMax) (hfits : Fits size) :
    ∃ x, track t hdr size = some x ∧ TrackerInv x.2 := by
  refine ⟨_, if_pos hfits, hdr :: ls, bs, h.add ?_ ?_ size, hle⟩
  · exact update_self ..
  · simp only [update_of_ne (Ne.symm hne)]
    exact h0

theorem malloc_iff (hinv : TrackerInv t) (h0 : t.owned 0 = false) (size : UInt32)
    (r : Option UInt32) :
    (∃ x, malloc t size r = some x ∧ TrackerInv x.2) ↔ GrantOk t size r := by
  obtain ⟨ls, bs, h, hle⟩ := hinv
  cases r with
  | none =>
    refine ⟨?_, ?_⟩
    · intro _ hdr hr
      cases hr
    · intro _
      exact ⟨(0, t), rfl, ls, bs, h, hle⟩
  | some hdr =>
    refine ⟨?_, ?_⟩
    · intro hx a ha
      cases ha
      obtain ⟨x, hx, _⟩ := hx
      simp only [malloc, track] at hx
      split at hx
      · next hfresh =>
        split at hx
        · next hfits => exact ⟨hfresh, hfits⟩
        · cases hx
      · cases hx
    · intro hok
      obtain ⟨hfresh, hfits⟩ := hok hdr rfl
      obtain ⟨x, hx, hinv⟩ := track_lists (h.fresh hfresh.2) hfresh.1 h0 hle hfits
      exact ⟨x, (if_pos hfresh).trans hx, hinv⟩

/-! ## The calls that bring them out of order -/

theorem TrackerInv.num_eq (h : TrackerInv t) (h' : TrackerInv t')
    (hsame : ∀ a, (t'.owned a = true ∧ t'.mem.tag a = allocationTag) ↔
      (t.owned a = true ∧ t.mem.tag a = allocationTag)) :
    t'.num = t.num := by
  obtain ⟨ls, bs, h, _⟩ := h
  obtain ⟨ls', bs', h', _⟩ := h'
  have hperm : ls'.Perm ls := by
    rw [List.perm_ext_iff_of_nodup h'.live.nodup h.live.nodup]
    intro a
    rw [h'.tagLive, h.tagLive, hsame]
  rw [← toNat_inj, h'.num, h.num, hperm.length_eq]

theorem sub_one_ne (n : UInt32) : n - 1 ≠ n := by
  intro h
  rw [← toNat_inj, toNat_sub, toNat_one] at h
  have hlt := n.toNat_lt
  omega

/-- A free that takes a live block off the count and leaves it in place. The header is
not one of the tracker's, so the backlog gets one that it should not have, and one of
its own may go. -/
theorem free_wild (hinv : TrackerInv t) (hptr : ptr ≠ 0) (hwild : t.owned (metaOf ptr) = false)
    (htag : t.mem.tag (metaOf ptr) = allocationTag) (hfree : free t ptr = some t') :
    ¬ TrackerInv t' := by
  obtain ⟨ls, bs, h, hle⟩ := id hinv
  intro hinv'
  rw [free, if_neg hptr, del_live htag] at hfree
  simp only [addToBacklog_eq] at hfree
  generalize hin : intoBacklog _ (metaOf ptr) = u at hfree
  have hunum : u.num = t.num - 1 := by rw [← hin]; rfl
  have huowned : u.owned = t.owned := by rw [← hin]; rfl
  have hubacklog : u.backlogNum = t.backlogNum + 1 := by rw [← hin]; rfl
  have hutag : ∀ a, a ≠ metaOf ptr → u.mem.tag a = t.mem.tag a := by
    intro a ha
    rw [← hin, intoBacklog_tag, update_of_ne ha, delFrom_tag]
  have hulive : ∀ a, (u.owned a = true ∧ u.mem.tag a = allocationTag) ↔
      (t.owned a = true ∧ t.mem.tag a = allocationTag) := by
    intro a
    rw [huowned]
    by_cases ha : a = metaOf ptr
    · simp [ha, hwild]
    · rw [hutag a ha]
  by_cases hfew : u.backlogNum ≤ backlogMax
  · rw [trim_done hfew] at hfree
    cases hfree
    have hnum := hinv.num_eq hinv' hulive
    rw [hunum] at hnum
    exact sub_one_ne _ hnum
  · -- the backlog was full: its oldest header, a freed one, goes
    have hmax : backlogMax.toNat = 50 := rfl
    have hfull : t.backlogNum.toNat = 50 := by
      rw [le_iff_toNat_le] at hle hfew
      rw [hubacklog, toNat_succ rfl (by omega)] at hfew
      omega
    obtain ⟨init, gone, rfl⟩ : ∃ init gone, bs = init ++ [gone] := by
      rcases List.eq_nil_or_concat bs with rfl | ⟨init, gone, hbs⟩
      · rw [h.backlogNum] at hfull
        simp at hfull
      · exact ⟨init, gone, by rw [hbs, List.concat_eq_append]⟩
    have hgone := (h.tagBacklog gone).mp (by simp)
    have hne : gone ≠ metaOf ptr := by
      intro hg
      rw [hg, hwild] at hgone
      cases hgone.1
    have hfirst : u.backlog.first = some gone := by
      have hlast : t.backlog.last ≠ none := by
        rw [h.backlog.last]
        simp
      rw [← hin, intoBacklog]
      simp only [Tracker.setTag, addTo_eq, if_neg hlast]
      rw [h.backlog.first, List.getLast?_concat]
    have hsucc : (t.backlogNum + 1).toNat = 50 + 1 := toNat_succ hfull (by decide)
    rw [hsucc, trim, if_pos (UInt32.not_le.mp hfew), hfirst] at hfree
    have hpass : (release (delFromBacklog u gone) gone).backlogNum ≤ backlogMax := by
      have hpred : (u.backlogNum - 1).toNat = backlogMax.toNat := by
        rw [hubacklog, toNat_pred hsucc, hmax]
      rw [le_iff_toNat_le]
      exact Nat.le_of_eq hpred
    have hrest := hfree
    change trim 50 (release (delFromBacklog u gone) gone) = some t' at hrest
    rw [trim_done hpass] at hrest
    cases hrest
    have hnum := hinv.num_eq hinv' (by
      intro a
      by_cases ha : a = gone
      · subst ha
        simp [release, hgone.2, Ne.symm tags_ne.1]
      · rw [← hulive a, release]
        simp only [update_of_ne ha, delFromBacklog_tag]
        rfl)
    have hval : (release (delFromBacklog u gone) gone).num = t.num - 1 := hunum
    rw [hval] at hnum
    exact sub_one_ne _ hnum

theorem free_iff (hinv : TrackerInv t) (ptr : UInt32) :
    (∃ t', free t ptr = some t' ∧ TrackerInv t') ↔ FreeOk t ptr := by
  obtain ⟨ls, bs, h, hle⟩ := id hinv
  refine ⟨?_, ?_⟩
  · intro hfree hptr
    obtain ⟨t', hfree, hinv'⟩ := hfree
    by_contra hbad
    rw [not_or, not_not] at hbad
    exact free_wild hinv hptr (by simpa using hbad.1) hbad.2 hfree hinv'
  · intro hok
    by_cases hptr : ptr = 0
    · exact ⟨t, if_pos hptr, hinv⟩
    · by_cases htag : t.mem.tag (metaOf ptr) = allocationTag
      · have hown : t.owned (metaOf ptr) = true := by
          rcases hok hptr with hown | hne
          · exact hown
          · exact absurd htag hne
        obtain ⟨u, ls', hdel, hoff, howned, hbacklog, _⟩ := h.takeLive hown htag
        have hin := hoff.intoBacklog (howned ▸ hown) (hbacklog ▸ hle)
        obtain ⟨t', ht', hinv'⟩ := trim_lists (n := (u.backlogNum + 1).toNat) hin (by
          have hnum := hin.backlogNum
          have hsame : (intoBacklog u (metaOf ptr)).backlogNum = u.backlogNum + 1 := rfl
          rw [hsame] at hnum
          omega)
        refine ⟨t', ?_, hinv'⟩
        rw [free, if_neg hptr, hdel]
        exact ht'
      · refine ⟨t, ?_, hinv⟩
        rw [free, if_neg hptr, del_other htag]

theorem release_owned_zero (h0 : t.owned 0 = false) (hdr : UInt32) :
    (release t hdr).owned 0 = false := by
  by_cases hz : (0 : UInt32) = hdr
  · simp [release, ← hz]
  · simp [release, hz, h0]

theorem resize_lists {a : UInt32} (h : ListsOff t hdr ls bs) (hown : t.owned hdr = true)
    (h0 : t.owned 0 = false) (hle : t.backlogNum ≤ backlogMax) (ha : a = hdr ∨ Fresh t a)
    (hfits : Fits size) :
    ∃ x, resize t hdr size (some a) = some x ∧ TrackerInv x.2 := by
  have hhdr : hdr ≠ 0 := by
    intro hz
    rw [hz, h0] at hown
    cases hown
  rw [resize, if_neg (by simp [hown])]
  by_cases hsame : a = hdr
  · subst hsame
    have hstay : { t with owned := update t.owned a true } = t := by
      rw [← hown, Function.update_eq_self]
    obtain ⟨x, hx, hinv⟩ := track_lists (hstay.symm ▸ h) hhdr h0 hle hfits
    exact ⟨x, (if_pos rfl).trans hx, hinv⟩
  · have hfresh : Fresh t a := ha.resolve_left hsame
    have hrel : (release t hdr).owned a = false := by
      simp only [release, update_of_ne hsame]
      exact hfresh.2
    obtain ⟨x, hx, hinv⟩ :=
      track_lists (h.release.fresh hrel) hfresh.1 (release_owned_zero h0 hdr) hle hfits
    refine ⟨x, ?_, hinv⟩
    simp only [if_neg hsame, if_pos hfresh]
    exact hx

theorem resize_eq_some (h : resize t hdr size r = some x) :
    t.owned hdr = true ∧ (r = none → x = (0, t)) ∧
      ∀ a, r = some a → (a = hdr ∨ Fresh t a) ∧ Fits size := by
  rw [resize.eq_def] at h
  split at h
  · cases h
  · next hown =>
    refine ⟨by simpa using hown, ?_, ?_⟩
    · intro hr
      subst hr
      exact (Option.some.inj h).symm
    · intro a hr
      subst hr
      simp only [track] at h
      split at h
      · next hsame =>
        split at h
        · next hfits => exact ⟨.inl hsame, hfits⟩
        · cases h
      · split at h
        · next hfresh =>
          split at h
          · next hfits => exact ⟨.inr hfresh, hfits⟩
          · cases h
        · cases h

theorem resize_iff (hinv : TrackerInv t) (h0 : t.owned 0 = false) (hsize : size ≠ 0)
    (hptr : ptr ≠ 0) (r : Option UInt32) :
    (∃ x, realloc t ptr size r = some x ∧ TrackerInv x.2) ↔ ResizeOk t (metaOf ptr) size r := by
  obtain ⟨ls, bs, h, hle⟩ := id hinv
  rw [realloc, if_neg hsize, if_neg hptr]
  by_cases hlive : t.mem.tag (metaOf ptr) = allocationTag
  · rw [del_live hlive]
    refine ⟨?_, ?_⟩
    · intro hx _
      obtain ⟨x, hx, hinv'⟩ := hx
      obtain ⟨hown, hnone, hsome⟩ := resize_eq_some hx
      refine ⟨hown, ?_, hsome⟩
      intro _ hr
      -- the block is still allocated and tagged, but no longer counted
      have hxt := hnone hr
      rw [hxt] at hinv'
      have hnum := hinv.num_eq hinv' (by
        intro a
        simp only [delFrom_tag])
      exact sub_one_ne _ hnum
    · intro hok
      obtain ⟨hown, hne, hsome⟩ := hok (.inl hlive)
      obtain ⟨a, ha⟩ := Option.ne_none_iff_exists'.mp (hne hlive)
      subst ha
      obtain ⟨ha, hfits⟩ := hsome a rfl
      obtain ⟨u, ls', hdel, hoff, howned, hbacklog, _⟩ := h.takeLive hown hlive
      rw [del_live hlive] at hdel
      cases hdel
      exact resize_lists hoff hown h0 hle ha hfits
  · rw [del_other hlive]
    by_cases hfreed : t.mem.tag (metaOf ptr) = backlogTag
    · simp only [if_pos hfreed]
      refine ⟨?_, ?_⟩
      · intro hx _
        obtain ⟨x, hx, _⟩ := hx
        obtain ⟨hown, _, hsome⟩ := resize_eq_some hx
        exact ⟨hown, fun hl => absurd hl hlive, hsome⟩
      · intro hok
        obtain ⟨hown, _, hsome⟩ := hok (.inr hfreed)
        obtain ⟨bs', hoff, hlt⟩ := h.takeBacklog hown hfreed
        have hle' : (delFromBacklog t (metaOf ptr)).backlogNum ≤ backlogMax := by
          rw [le_iff_toNat_le] at hle ⊢
          rw [hoff.backlogNum]
          have hnum := h.backlogNum
          omega
        cases r with
        | none =>
          refine ⟨(0, delFromBacklog t (metaOf ptr)), ?_, ls, bs', hoff.untagged ?_, hle'⟩
          · have hown' : (delFromBacklog t (metaOf ptr)).owned (metaOf ptr) = true := hown
            rw [resize]
            exact if_neg (by simp [hown'])
          · rw [delFromBacklog_tag, update_self]
        | some a =>
          obtain ⟨ha, hfits⟩ := hsome a rfl
          exact resize_lists hoff hown h0 hle' ha hfits
    · simp only [if_neg hfreed]
      refine ⟨?_, ?_⟩
      · intro _ htag
        rcases htag with htag | htag
        · exact absurd htag hlive
        · exact absurd htag hfreed
      · intro _
        exact ⟨_, rfl, hinv⟩

theorem perform_iff (hinv : TrackerInv t) (h0 : t.owned 0 = false) (c : Call) :
    (∃ t', perform t c = some t' ∧ TrackerInv t') ↔ CallOk t c := by
  -- the wrapped functions also return a pointer, which is dropped
  have hdrop : ∀ o : Option (UInt32 × Tracker),
      (∃ t', o.map Prod.snd = some t' ∧ TrackerInv t') ↔ ∃ x, o = some x ∧ TrackerInv x.2 := by
    intro o
    cases o <;> simp
  cases c with
  | malloc size r => exact (hdrop _).trans (malloc_iff hinv h0 size r)
  | calloc nmemb size r => exact (hdrop _).trans (malloc_iff hinv h0 (nmemb * size) r)
  | free ptr => exact free_iff hinv ptr
  | realloc ptr size r =>
    rw [CallOk]
    split
    · next hsize =>
      rw [← free_iff hinv, perform, realloc, if_pos hsize, hdrop]
      cases free t ptr <;> simp
    · next hsize =>
      split
      · next hptr =>
        rw [← malloc_iff hinv h0, perform, realloc, if_neg hsize, if_pos hptr, hdrop]
      · next hptr => exact (hdrop _).trans (resize_iff hinv h0 hsize hptr r)

/-! ## No header is at address 0 -/

theorem trim_owned_zero {n : Nat} (h0 : t.owned 0 = false) (h : trim n t = some t') :
    t'.owned 0 = false := by
  induction n generalizing t with
  | zero =>
    cases h
    exact h0
  | succ n ih =>
    rw [trim] at h
    split at h
    · obtain ⟨gone, _, h⟩ := Option.bind_eq_some_iff.mp h
      exact ih (release_owned_zero (t := delFromBacklog t gone) h0 gone) h
    · cases h
      exact h0

theorem track_owned_zero (hne : hdr ≠ 0) (h0 : t.owned 0 = false) (h : track t hdr size = some x) :
    x.2.owned 0 = false := by
  rw [track] at h
  split at h
  · cases h
    exact (update_of_ne (Ne.symm hne) _ _).trans h0
  · cases h

theorem malloc_owned_zero (h0 : t.owned 0 = false) (h : malloc t size r = some x) :
    x.2.owned 0 = false := by
  rw [malloc.eq_def] at h
  split at h
  · cases h
    exact h0
  · split at h
    · next hfresh => exact track_owned_zero hfresh.1 h0 h
    · cases h

theorem del_owned (h : del t hdr = some t') :
    t'.owned = t.owned := by
  rw [del] at h
  split at h
  · cases h
  · cases h
    rfl

theorem free_owned_zero (h0 : t.owned 0 = false) (h : free t ptr = some t') :
    t'.owned 0 = false := by
  rw [free] at h
  split at h
  · cases h
    exact h0
  · split at h
    · cases h
      exact h0
    · next u hdel =>
      have hu : u.owned 0 = false := del_owned hdel ▸ h0
      exact trim_owned_zero (t := intoBacklog u (metaOf ptr)) hu h

theorem resize_owned_zero (h0 : t.owned 0 = false) (h : resize t hdr size r = some x) :
    x.2.owned 0 = false := by
  have hhdr : hdr ≠ 0 := by
    intro hz
    have hown := (resize_eq_some h).1
    rw [hz, h0] at hown
    cases hown
  rw [resize.eq_def] at h
  split at h
  · cases h
  · split at h
    · cases h
      exact h0
    · split at h
      · next hsame => exact track_owned_zero (hsame ▸ hhdr) h0 h
      · split at h
        · next hfresh => exact track_owned_zero hfresh.1 (release_owned_zero h0 hdr) h
        · cases h

theorem realloc_owned_zero (h0 : t.owned 0 = false) (h : realloc t ptr size r = some x) :
    x.2.owned 0 = false := by
  rw [realloc] at h
  split at h
  · obtain ⟨t', hfree, rfl⟩ := Option.map_eq_some_iff.mp h
    exact free_owned_zero h0 hfree
  · split at h
    · exact malloc_owned_zero h0 h
    · split at h
      · next u hdel => exact resize_owned_zero (del_owned hdel ▸ h0) h
      · split at h
        · exact resize_owned_zero (t := delFromBacklog t (metaOf ptr)) h0 h
        · cases h
          exact h0

theorem step_owned_zero {e : Event} (h0 : t.owned 0 = false) (h : step t e = some t') :
    t'.owned 0 = false := by
  have hs0 : (t.scribble e.wild).owned 0 = false := h0
  rw [step] at h
  generalize t.scribble e.wild = s at h hs0
  cases hc : e.call with
  | malloc size r =>
    rw [hc] at h
    obtain ⟨x, hx, rfl⟩ := Option.map_eq_some_iff.mp h
    exact malloc_owned_zero hs0 hx
  | calloc nmemb size r =>
    rw [hc] at h
    obtain ⟨x, hx, rfl⟩ := Option.map_eq_some_iff.mp h
    exact malloc_owned_zero hs0 hx
  | realloc ptr size r =>
    rw [hc] at h
    obtain ⟨x, hx, rfl⟩ := Option.map_eq_some_iff.mp h
    exact realloc_owned_zero hs0 hx
  | free ptr =>
    rw [hc] at h
    exact free_owned_zero hs0 h

/-! ## Runs -/

theorem initial_trackerInv (m : Mem) : TrackerInv { mem := m } := by
  refine ⟨[], [], ⟨⟨trivial, List.nodup_nil, rfl, rfl⟩, ⟨trivial, List.nodup_nil, rfl, rfl⟩, ?_,
    rfl, rfl, ?_, ?_⟩, le_iff_toNat_le.mpr (Nat.zero_le _)⟩
  · intro h hh
    cases hh
  · intro h
    simp
  · intro h
    simp

/-- Over every sequence of calls, whatever the real allocator answers and whatever others
write into memory that is theirs: every call returns and both lists are in order after
each of them, exactly if every call meets `EventOk`. -/
theorem trackerInv_iff (m : Mem) (events : List Event) :
    Always step TrackerInv { mem := m } events ↔ Guarded step EventOk { mem := m } events := by
  apply always_iff_guarded (I := fun t => t.owned 0 = false)
  · intro t e t' h0 hstep
    exact step_owned_zero h0 hstep
  · intro t e h0 hinv
    obtain ⟨ls, bs, h, hle⟩ := hinv
    exact perform_iff ⟨ls, bs, h.scribble e.wild, hle⟩ h0 e.call
  · rfl
  · exact initial_trackerInv m

/-- Memory in which nothing is tagged. -/
def blank : Mem := ⟨fun _ => 0, fun _ => none, fun _ => none, fun _ => 0⟩

/-- A block of 8 bytes; then a realloc to 16 bytes that fails. -/
def failedRealloc : List Event :=
  [⟨blank, .malloc 8 (some 0x1000)⟩, ⟨blank, .realloc 0x10a0 16 none⟩]

/-- The block is still the tracker's and still tagged as live, but it is not linked. -/
theorem trackerInv_failed_realloc :
    (∃ t, run step { mem := blank } failedRealloc = some t ∧ t.owned 0x1000 = true ∧
      t.mem.tag 0x1000 = allocationTag ∧ t.live.last = none ∧ t.num = 0) ∧
    ¬ Always step TrackerInv { mem := blank } failedRealloc := by
  refine ⟨⟨_, rfl, by decide, by decide, by decide, by decide⟩, ?_⟩
  intro h
  obtain ⟨_, t₁, h₁, _, t₂, h₂, hinv⟩ := h
  cases h₁
  cases h₂
  obtain ⟨ls, bs, hlists, _⟩ := hinv
  have hnum := hlists.num
  have hmem : (0x1000 : UInt32) ∈ ls := (hlists.tagLive 0x1000).mpr ⟨by decide, by decide⟩
  have hempty : ls = [] := List.eq_nil_of_length_eq_zero hnum.symm
  rw [hempty] at hmem
  cases hmem

end Omap4Hal.HeapTracker

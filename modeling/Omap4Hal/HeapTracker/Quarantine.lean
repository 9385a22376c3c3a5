import Mathlib.Data.Fintype.Basic
import Omap4Hal.HeapTracker.Tracker
import Omap4Hal.Lib.WaitingLine

/- The quarantine of the heap tracker (heaptracker.c). The tracker of `Tracker` gets the
   bytes that its checks read: the front guard in the header, and behind the header the
   user's bytes with the rear guard after them. A block that is freed is poisoned and
   waits in the backlog; when it leaves, its bytes are looked at. Plain `char` is unsigned
   (ARM), so that the bytes compare with the constants as they are.

   Before every call all these bytes may have been overwritten with anything, also those
   of the blocks that wait, and memory that is not the tracker's as before (`Turn`). The
   rest of a header that the tracker has is its own.

   The history counts how often the real allocator has handed out each block and got it
   back, keeps the bytes as the tracker left them, and has the frees and the blocks that
   left the backlog as a waiting line. Stack traces and the lines of the log without a
   finding are left out.

   `quarantine_lawful` says when and in which order the blocks leave, and which of them
   are reported. -/
namespace Omap4Hal.HeapTracker

open Lib
open Function (update update_self update_of_ne)

/-! ## State -/

def freePoison : UInt8 := 0xa5
def frontGuard : UInt8 := 0xaa
def rearGuard : UInt8 := 0xbb

/-- `FRONT_GUARD_LEN` and `REAR_GUARD_LEN`. -/
def guardLen : Nat := 16

theorem guardLen_pos : 0 < guardLen := by decide

/-- The findings that are logged. Of a corrupted front guard: whether a stack trace is
dumped. -/
inductive Report where
  | invalidTag (tag : UInt32)
  | usedAfterFree
  | frontGuard (dump : Bool)
  | rearGuard
  deriving DecidableEq

/-- What a block that leaves the backlog is found to be: whether the user's bytes are
other than free has left them, whether the guards are other than the allocation has left
them, and what is logged. -/
structure Finding where
  userChanged : Bool
  guardsChanged : Bool
  reports : List Report

structure World where
  tracker : Tracker
  front : UInt32 → Fin guardLen → UInt8
  body : UInt32 → Nat → UInt8
  /- history -/
  leftFront : UInt32 → Fin guardLen → UInt8
  leftBody : UInt32 → Nat → UInt8
  taken : UInt32 → Nat := fun _ => 0
  returned : UInt32 → Nat := fun _ => 0
  line : Line UInt32 Finding := {}
  leaks : List (UInt32 × List Report) := []

def World.size (w : World) (hdr : UInt32) : Nat := (w.tracker.mem.size hdr).toNat

/-! ## The checks -/

def World.isFrontGuardValid (w : World) (hdr : UInt32) : Bool :=
  decide (∀ i, w.front hdr i = frontGuard)

def World.isRearGuardValid (w : World) (hdr : UInt32) : Bool :=
  decide (∀ i < guardLen, w.body hdr (w.size hdr + i) = rearGuard)

def World.wasUsedAfterFree (w : World) (hdr : UInt32) : Bool :=
  decide (∃ i < w.size hdr, w.body hdr i ≠ freePoison)

/-- The answer of the source is 1 where nothing is reported. -/
def World.checkGuards (w : World) (hdr : UInt32) : List Report :=
  if !w.isFrontGuardValid hdr then [.frontGuard (w.front hdr ⟨0, guardLen_pos⟩ == frontGuard)]
  else if !w.isRearGuardValid hdr then [.rearGuard]
  else []

def World.checkAllocation (w : World) (hdr : UInt32) : List Report :=
  let tag := w.tracker.mem.tag hdr
  if tag ≠ allocationTag ∧ tag ≠ backlogTag then [.invalidTag tag]
  else if tag = backlogTag ∧ w.wasUsedAfterFree hdr then .usedAfterFree :: w.checkGuards hdr
  else w.checkGuards hdr

def World.userChanged (w : World) (hdr : UInt32) : Bool :=
  decide (∃ i < w.size hdr, w.body hdr i ≠ w.leftBody hdr i)

def World.guardsChanged (w : World) (hdr : UInt32) : Bool :=
  decide ((∃ i, w.front hdr i ≠ w.leftFront hdr i) ∨
    ∃ i < guardLen, w.body hdr (w.size hdr + i) ≠ w.leftBody hdr (w.size hdr + i))

/-! ## The wrapped functions -/

/-- The real allocator hands out a block. -/
def World.take (w : World) (hdr : UInt32) : World :=
  { w with
    tracker := { w.tracker with owned := update w.tracker.owned hdr true }
    taken := update w.taken hdr (w.taken hdr + 1) }

/-- The real allocator gets a block back. -/
def World.release (w : World) (hdr : UInt32) : World :=
  { w with
    tracker := HeapTracker.release w.tracker hdr
    returned := update w.returned hdr (w.returned hdr + 1) }

def World.add (w : World) (hdr size : UInt32) : World :=
  let front := update w.front hdr fun _ => frontGuard
  let body := update w.body hdr fun i =>
    if size.toNat ≤ i ∧ i < size.toNat + guardLen then rearGuard else w.body hdr i
  { w with
    tracker := HeapTracker.add w.tracker hdr size
    front := front
    body := body
    leftFront := update w.leftFront hdr (front hdr)
    leftBody := update w.leftBody hdr (body hdr) }

def World.delFromBacklog (w : World) (way : Way) (hdr : UInt32) : World :=
  { w with
    tracker := HeapTracker.delFromBacklog w.tracker hdr
    line := w.line.leave way hdr ⟨w.userChanged hdr, w.guardsChanged hdr, w.checkAllocation hdr⟩ }

/-- The loop of `add_to_backlog`. -/
def World.trim : Nat → World → Option World
  | 0, w => some w
  | n + 1, w =>
    if w.tracker.backlogNum > backlogMax then do
      let gone ← w.tracker.backlog.first
      ((w.delFromBacklog .evicted gone).release gone).trim n
    else some w

/-- `add_to_backlog` up to its loop, with `poison`. -/
def World.intoBacklog (w : World) (hdr : UInt32) : World :=
  let poisoned := fun i => if i < w.size hdr then freePoison else w.body hdr i
  { w with
    tracker := HeapTracker.intoBacklog w.tracker hdr
    body := update w.body hdr poisoned
    leftBody := update w.leftBody hdr fun i =>
      if i < w.size hdr then poisoned i else w.leftBody hdr i
    line := w.line.put hdr }

def World.addToBacklog (w : World) (hdr : UInt32) : Option World :=
  (w.intoBacklog hdr).trim (w.tracker.backlogNum + 1).toNat

/-- A block of the real allocator is made into a tracked one. -/
def World.track (w : World) (hdr size : UInt32) : Option (UInt32 × World) :=
  if Fits size then some (user hdr, w.add hdr size) else none

/-- `__wrap_malloc`; `r` is what `__real_malloc` returns. -/
def World.malloc (w : World) (size : UInt32) (r : Option UInt32) : Option (UInt32 × World) :=
  match r with
  | none => some (0, w)
  | some hdr => if Fresh w.tracker hdr then (w.take hdr).track hdr size else none

/-- `__wrap_calloc`: the block comes cleared. -/
def World.calloc (w : World) (nmemb size : UInt32) (r : Option UInt32) : Option (UInt32 × World) :=
  match r with
  | none => some (0, w)
  | some hdr =>
    let cleared := { w with
      front := update w.front hdr fun _ => 0
      body := update w.body hdr fun _ => 0 }
    cleared.malloc (nmemb * size) (some hdr)

/-- `__wrap_free`. -/
def World.free (w : World) (ptr : UInt32) : Option World :=
  if ptr = 0 then some w
  else
    match del w.tracker (metaOf ptr) with
    | none => some w
    | some t => ({ w with tracker := t } : World).addToBacklog (metaOf ptr)

/-- `__real_realloc` of a header, which copies the bytes if the block moves, and the
tracking of its answer. -/
def World.resize (w : World) (hdr size : UInt32) (r : Option UInt32) : Option (UInt32 × World) :=
  if w.tracker.owned hdr = false then none
  else
    match r with
    | none => some (0, w)
    | some a =>
      if a = hdr then w.track a size
      else if Fresh w.tracker a then
        let moved := { w with
          front := update w.front a (w.front hdr)
          body := update w.body a (w.body hdr) }
        ((moved.release hdr).take a).track a size
      else none

/-- `__wrap_realloc`. -/
def World.realloc (w : World) (ptr size : UInt32) (r : Option UInt32) : Option (UInt32 × World) :=
  if size = 0 then (w.free ptr).map fun w => (0, w)
  else if ptr = 0 then w.malloc size r
  else
    match del w.tracker (metaOf ptr) with
    | some t => ({ w with tracker := t } : World).resize (metaOf ptr) size r
    | none =>
      if w.tracker.mem.tag (metaOf ptr) = backlogTag then
        (w.delFromBacklog .pulled (metaOf ptr)).resize (metaOf ptr) size r
      -- a whole new block, which is not tracked
      else some (r.getD 0, w)

/-- `del_leak`. The tag stays. -/
def World.delLeak (w : World) (hdr : UInt32) : World :=
  let r := delFrom w.tracker.mem w.tracker.live hdr
  { w with
    tracker := { w.tracker with mem := r.1, live := r.2, num := w.tracker.num - 1 }
    leaks := w.leaks ++ [(hdr, w.checkAllocation hdr)] }

/-- The first loop of `heaptracker_free_leaked_memory`. `none` if the passes do not
suffice. -/
def World.freeLive : Nat → World → Option World
  | 0, w => if w.tracker.live.last = none then some w else none
  | n + 1, w =>
    match w.tracker.live.last with
    | none => some w
    | some gone => ((w.delLeak gone).release gone).freeLive n

/-- The second loop: it goes on while `backlog_last` is set and takes `backlog_first`. -/
def World.freeBacklog : Nat → World → Option World
  | 0, w => if w.tracker.backlog.last = none then some w else none
  | n + 1, w =>
    if w.tracker.backlog.last = none then some w
    else do
      let gone ← w.tracker.backlog.first
      ((w.delFromBacklog .flushed gone).release gone).freeBacklog n

/-- `heaptracker_free_leaked_memory`. Each pass lowers `num` or `backlog_num`. -/
def World.freeLeakedMemory (w : World) : Option World := do
  let w ← w.freeLive w.tracker.num.toNat
  w.freeBacklog w.tracker.backlogNum.toNat

/-! ## Runs -/

inductive Act where
  | call (c : Call)
  | shutdown

/-- What has been written before a call, and the call. -/
structure Turn where
  wild : Mem
  front : UInt32 → Fin guardLen → UInt8
  body : UInt32 → Nat → UInt8
  act : Act

def World.scribble (w : World) (e : Turn) : World :=
  { w with tracker := w.tracker.scribble e.wild, front := e.front, body := e.body }

def World.perform (w : World) : Act → Option World
  | .call (.malloc size r) => (w.malloc size r).map Prod.snd
  | .call (.calloc nmemb size r) => (w.calloc nmemb size r).map Prod.snd
  | .call (.realloc ptr size r) => (w.realloc ptr size r).map Prod.snd
  | .call (.free ptr) => w.free ptr
  | .shutdown => w.freeLeakedMemory

def World.step (w : World) (e : Turn) : Option World := (w.scribble e).perform e.act

/-- The tracker at the start, with any memory. -/
def World.initial (e : Turn) : World where
  tracker := { mem := e.wild }
  front := e.front
  body := e.body
  leftFront := e.front
  leftBody := e.body

/-- The condition of `trackerInv_iff` on a call. A shutdown has none. -/
def TurnOk (w : World) (e : Turn) : Prop :=
  match e.act with
  | .call c => CallOk (w.tracker.scribble e.wild) c
  | .shutdown => True

/-! ## What the quarantine is for -/

/-- The departures from the backlog are lawful; a block that was freed and has not left is
there; no block goes back to the real allocator more often than it was handed out; and a
block is reported when it leaves exactly if its bytes or guards have changed. -/
structure Quarantined (w : World) : Prop where
  lawful : Lawful backlogMax.toNat w.line.puts w.line.left
  waiting : ∀ n hdr, w.line.puts[n]? = some hdr → (∃ d ∈ w.line.left, d.ticket = n) ∨
    w.tracker.owned hdr = true ∧ w.tracker.mem.tag hdr = backlogTag
  balanced : ∀ a, w.taken a = w.returned a + if w.tracker.owned a then 1 else 0
  reported : ∀ d ∈ w.line.left,
    d.info.reports ≠ [] ↔ d.info.userChanged = true ∨ d.info.guardsChanged = true

/-- What the history has of a block that the tracker has: the guards, and the poison
once it is freed. -/
structure Kept (w : World) (a : UInt32) : Prop where
  front : w.tracker.mem.tag a = allocationTag ∨ w.tracker.mem.tag a = backlogTag →
    ∀ i, w.leftFront a i = frontGuard
  rear : w.tracker.mem.tag a = allocationTag ∨ w.tracker.mem.tag a = backlogTag →
    ∀ i < guardLen, w.leftBody a (w.size a + i) = rearGuard
  user : w.tracker.mem.tag a = backlogTag → ∀ i < w.size a, w.leftBody a i = freePoison

/-- What holds beside the two linked lists, with `bs` the blocks in the backlog. -/
structure Sound (w : World) (bs : List UInt32) : Prop where
  zero : w.tracker.owned 0 = false
  line : w.line.Ok backlogMax.toNat bs
  kept : ∀ a, w.tracker.owned a = true → Kept w a
  balanced : ∀ a, w.taken a = w.returned a + if w.tracker.owned a then 1 else 0
  reported : ∀ d ∈ w.line.left,
    d.info.reports ≠ [] ↔ d.info.userChanged = true ∨ d.info.guardsChanged = true

def Tracked (w : World) : Prop :=
  ∃ ls bs, Lists w.tracker ls bs ∧ bs.length ≤ backlogMax.toNat ∧ Sound w bs

variable {w : World} {hdr a size : UInt32} {bs ls : List UInt32}

theorem Tracked.quarantined (h : Tracked w) : Quarantined w := by
  obtain ⟨ls, bs, hlists, _, hsound⟩ := h
  refine ⟨hsound.line.lawful, ?_, hsound.balanced, hsound.reported⟩
  intro n hdr hput
  rcases hsound.line.whole n hdr hput with hleft | ⟨hmem, _⟩
  · exact .inl hleft
  · exact .inr ((hlists.tagBacklog hdr).mp hmem)

/-! ## The checks find what has changed -/

theorem checkGuards_iff (hfront : ∀ i, w.leftFront hdr i = frontGuard)
    (hrear : ∀ i < guardLen, w.leftBody hdr (w.size hdr + i) = rearGuard) :
    w.checkGuards hdr ≠ [] ↔ w.guardsChanged hdr = true := by
  have hfront' : w.isFrontGuardValid hdr = false ↔ ∃ i, w.front hdr i ≠ w.leftFront hdr i := by
    simp [World.isFrontGuardValid, hfront]
  have hrear' : w.isRearGuardValid hdr = false ↔
      ∃ i < guardLen, w.body hdr (w.size hdr + i) ≠ w.leftBody hdr (w.size hdr + i) := by
    simp only [World.isRearGuardValid, decide_eq_false_iff_not, not_forall, exists_prop]
    refine exists_congr fun i => and_congr_right fun hi => ?_
    rw [hrear i hi]
  rw [World.guardsChanged, decide_eq_true_eq, ← hfront', ← hrear', World.checkGuards]
  cases w.isFrontGuardValid hdr <;> cases w.isRearGuardValid hdr <;> simp

theorem wasUsedAfterFree_eq (huser : ∀ i < w.size hdr, w.leftBody hdr i = freePoison) :
    w.wasUsedAfterFree hdr = w.userChanged hdr := by
  rw [World.wasUsedAfterFree, World.userChanged, decide_eq_decide]
  refine exists_congr fun i => and_congr_right fun hi => ?_
  rw [huser i hi]

theorem checkAllocation_iff (h : Kept w hdr) (htag : w.tracker.mem.tag hdr = backlogTag) :
    w.checkAllocation hdr ≠ [] ↔ w.userChanged hdr = true ∨ w.guardsChanged hdr = true := by
  have hguards := checkGuards_iff (h.front (.inr htag)) (h.rear (.inr htag))
  simp only [World.checkAllocation, htag, ne_eq, not_true_eq_false, and_false, if_false, true_and,
    wasUsedAfterFree_eq (h.user htag)]
  cases w.userChanged hdr with
  | false => simpa using hguards
  | true => simp

/-! ## One operation at a time -/

theorem Kept.congr {w' : World} (h : Kept w a) (htag : w'.tracker.mem.tag a = w.tracker.mem.tag a)
    (hsize : w'.tracker.mem.size a = w.tracker.mem.size a) (hfront : w'.leftFront a = w.leftFront a)
    (hbody : w'.leftBody a = w.leftBody a) :
    Kept w' a := by
  have hlen : w'.size a = w.size a := by rw [World.size, World.size, hsize]
  refine ⟨?_, ?_, ?_⟩
  · rw [htag, hfront]
    exact h.front
  · rw [htag, hbody, hlen]
    exact h.rear
  · rw [htag, hbody, hlen]
    exact h.user

theorem kept_untagged (htag : w.tracker.mem.tag a = 0) : Kept w a := by
  have hno : ¬ (w.tracker.mem.tag a = allocationTag ∨ w.tracker.mem.tag a = backlogTag) := by
    rw [htag]
    decide
  exact ⟨fun h => absurd h hno, fun h => absurd h hno, fun h => absurd (.inr h) hno⟩

theorem Sound.relink (h : Sound w bs) {t : Tracker} (howned : t.owned = w.tracker.owned)
    (htag : ∀ a, w.tracker.owned a = true → t.mem.tag a = w.tracker.mem.tag a)
    (hsize : ∀ a, w.tracker.owned a = true → t.mem.size a = w.tracker.mem.size a) :
    Sound { w with tracker := t } bs := by
  refine ⟨howned ▸ h.zero, h.line, ?_, ?_, h.reported⟩
  · intro a ha
    have hown : w.tracker.owned a = true := howned ▸ ha
    exact (h.kept a hown).congr (htag a hown) (hsize a hown) rfl rfl
  · intro a
    change w.taken a = w.returned a + if t.owned a then 1 else 0
    rw [howned]
    exact h.balanced a

theorem Sound.scribble (h : Sound w bs) (e : Turn) :
    Sound (w.scribble e) bs := by
  have hsound : Sound { w with tracker := w.tracker.scribble e.wild } bs := by
    refine h.relink (t := w.tracker.scribble e.wild) rfl ?_ ?_
    · intro a ha
      exact if_pos ha
    · intro a ha
      exact if_pos ha
  exact ⟨hsound.zero, hsound.line, fun a ha => (hsound.kept a ha).congr rfl rfl rfl rfl,
    hsound.balanced, hsound.reported⟩

theorem Sound.rewrite (h : Sound w bs) (front : UInt32 → Fin guardLen → UInt8)
    (body : UInt32 → Nat → UInt8) :
    Sound { w with front := front, body := body } bs :=
  ⟨h.zero, h.line, fun a ha => (h.kept a ha).congr rfl rfl rfl rfl, h.balanced, h.reported⟩

theorem Sound.release (h : Sound w bs) (hown : w.tracker.owned hdr = true) :
    Sound (w.release hdr) bs := by
  refine ⟨release_owned_zero h.zero hdr, h.line, ?_, ?_, h.reported⟩
  · intro a ha
    have hne : a ≠ hdr := by
      intro hah
      rw [hah] at ha
      simp [World.release, HeapTracker.release] at ha
    have hstill : w.tracker.owned a = true := by
      rw [← ha]
      exact (update_of_ne hne _ _).symm
    exact (h.kept a hstill).congr rfl rfl rfl rfl
  · intro a
    have hold := h.balanced a
    by_cases hah : a = hdr
    · subst hah
      rw [hown, if_pos rfl] at hold
      simp [World.release, HeapTracker.release, hold]
    · simp only [World.release, HeapTracker.release, update_of_ne hah]
      exact hold

theorem addTo_size (m : Mem) (e : Ends) (hdr : UInt32) : (addTo m e hdr).1.size = m.size := by
  rw [addTo_eq]

theorem delFrom_size (m : Mem) (e : Ends) (hdr : UInt32) : (delFrom m e hdr).1.size = m.size := by
  rw [delFrom_eq]

theorem World.add_tag (w : World) (hdr size : UInt32) :
    (w.add hdr size).tracker.mem.tag = update w.tracker.mem.tag hdr allocationTag :=
  addTo_tag _ _ _

theorem World.add_size (w : World) (hdr size : UInt32) :
    (w.add hdr size).tracker.mem.size = update w.tracker.mem.size hdr size :=
  addTo_size _ _ _

theorem kept_add (w : World) (hdr size : UInt32) : Kept (w.add hdr size) hdr := by
  have hlen : (w.add hdr size).size hdr = size.toNat := by
    rw [World.size, World.add_size, update_self]
  have hbody : (w.add hdr size).leftBody hdr = fun i =>
      if size.toNat ≤ i ∧ i < size.toNat + guardLen then rearGuard else w.body hdr i := by
    simp [World.add]
  refine ⟨?_, ?_, ?_⟩
  · intro _ i
    simp [World.add]
  · intro _ i hi
    rw [hlen, hbody]
    exact if_pos ⟨by omega, by omega⟩
  · intro htag
    rw [World.add_tag, update_self] at htag
    exact absurd htag tags_ne.1

theorem sound_add (size : UInt32) (hzero : w.tracker.owned 0 = false)
    (hline : w.line.Ok backlogMax.toNat bs)
    (hkept : ∀ a, a ≠ hdr → w.tracker.owned a = true → Kept w a)
    (hbalanced : ∀ a, w.taken a = w.returned a + if w.tracker.owned a then 1 else 0)
    (hreported : ∀ d ∈ w.line.left, d.info.reports ≠ [] ↔
      d.info.userChanged = true ∨ d.info.guardsChanged = true)
    :
    Sound (w.add hdr size) bs := by
  refine ⟨hzero, hline, ?_, hbalanced, hreported⟩
  intro a ha
  by_cases hah : a = hdr
  · subst hah
    exact kept_add w a size
  · apply (hkept a hah ha).congr
    · rw [World.add_tag, update_of_ne hah]
    · rw [World.add_size, update_of_ne hah]
    · exact update_of_ne hah _ _
    · exact update_of_ne hah _ _

theorem Sound.add (h : Sound w bs) (hdr size : UInt32) :
    Sound (w.add hdr size) bs :=
  sound_add size h.zero h.line (fun a _ ha => h.kept a ha) h.balanced h.reported

theorem Sound.take (h : Sound w bs) (hfresh : Fresh w.tracker hdr) (size : UInt32) :
    Sound ((w.take hdr).add hdr size) bs := by
  refine sound_add size ?_ h.line ?_ ?_ h.reported
  · exact (update_of_ne (Ne.symm hfresh.1) _ _).trans h.zero
  · intro a hne ha
    have hold : w.tracker.owned a = true := by
      rw [← ha]
      exact (update_of_ne hne _ _).symm
    exact (h.kept a hold).congr rfl rfl rfl rfl
  · intro a
    have hold := h.balanced a
    by_cases hah : a = hdr
    · subst hah
      rw [hfresh.2] at hold
      simp only [Bool.false_eq_true, if_false] at hold
      simp [World.take, hold]
    · simp only [World.take, update_of_ne hah]
      exact hold

theorem Sound.leave {as cs : List UInt32} (h : Sound w (as ++ hdr :: cs))
    (hown : w.tracker.owned hdr = true) (htag : w.tracker.mem.tag hdr = backlogTag) (way : Way)
    (hend : way ≠ .pulled → cs = []) (hcap : way = .evicted → as.length = backlogMax.toNat) :
    Sound (w.delFromBacklog way hdr) (as ++ cs) := by
  refine ⟨h.zero, h.line.leave hend hcap _, ?_, h.balanced, ?_⟩
  · intro a ha
    by_cases hah : a = hdr
    · subst hah
      apply kept_untagged
      change (HeapTracker.delFromBacklog w.tracker a).mem.tag a = 0
      rw [delFromBacklog_tag, update_self]
    · refine (h.kept a ha).congr ?_ ?_ rfl rfl
      · change (HeapTracker.delFromBacklog w.tracker hdr).mem.tag a = _
        rw [delFromBacklog_tag, update_of_ne hah]
      · exact congrFun (delFrom_size w.tracker.mem w.tracker.backlog hdr) a
  · intro d hd
    rcases List.mem_append.mp hd with hd | hd
    · exact h.reported d hd
    · rw [List.mem_singleton.mp hd]
      exact checkAllocation_iff (h.kept hdr hown) htag

theorem Sound.intoBacklog (h : Sound w bs) (hnew : hdr ∉ bs) (hown : w.tracker.owned hdr = true)
    (htag : w.tracker.mem.tag hdr = allocationTag) : Sound (w.intoBacklog hdr) (hdr :: bs) := by
  have hsize : (HeapTracker.intoBacklog w.tracker hdr).mem.size = w.tracker.mem.size :=
    addTo_size _ _ _
  have hlen : (w.intoBacklog hdr).size hdr = w.size hdr := by
    rw [World.size, World.size, ← hsize]
    rfl
  refine ⟨h.zero, h.line.put hnew, ?_, h.balanced, h.reported⟩
  intro a ha
  by_cases hah : a = hdr
  · subst hah
    have hbody : (w.intoBacklog a).leftBody a = fun i =>
        if i < w.size a then (if i < w.size a then freePoison else w.body a i)
        else w.leftBody a i := update_self ..
    refine ⟨fun _ => (h.kept a hown).front (.inl htag), ?_, ?_⟩
    · intro _ i hi
      rw [hlen, hbody]
      have hge : ¬ w.size a + i < w.size a := by omega
      exact (if_neg hge).trans ((h.kept a hown).rear (.inl htag) i hi)
    · intro _ i hi
      rw [hlen] at hi
      rw [hbody]
      exact (if_pos hi).trans (if_pos hi)
  · refine (h.kept a ha).congr ?_ ?_ rfl ?_
    · change (HeapTracker.intoBacklog w.tracker hdr).mem.tag a = _
      rw [intoBacklog_tag, update_of_ne hah]
    · exact congrFun hsize a
    · exact update_of_ne hah _ _

/-! ## The calls -/

theorem World.trim_done (h : w.tracker.backlogNum ≤ backlogMax) (n : Nat) :
    w.trim n = some w := by
  cases n with
  | zero => rfl
  | succ n => exact if_neg (UInt32.not_lt.mpr h)

/-- The loop gives back the oldest block if the backlog is one too long. -/
theorem World.trim_tracked {n : Nat} (h : Lists w.tracker ls (hdr :: bs)) (hs : Sound w (hdr :: bs))
    (hlen : bs.length ≤ backlogMax.toNat) (hn : bs.length < n) :
    ∃ w', w.trim n = some w' ∧ Tracked w' := by
  have hnum := h.backlogNum
  rw [List.length_cons] at hnum
  by_cases hfull : bs.length = backlogMax.toNat
  · obtain ⟨init, gone, hbs⟩ : ∃ init gone, hdr :: bs = init ++ [gone] := by
      rcases List.eq_nil_or_concat (hdr :: bs) with hnil | ⟨init, gone, hbs⟩
      · cases hnil
      · exact ⟨init, gone, by rw [hbs, List.concat_eq_append]⟩
    have hinit : init.length = backlogMax.toNat := by
      have hlength := congrArg List.length hbs
      rw [List.length_cons, List.length_append, List.length_singleton] at hlength
      omega
    rw [hbs] at h hs
    obtain ⟨hfirst, hlists⟩ := h.evict
    obtain ⟨hown, htag⟩ := (h.tagBacklog gone).mp (by simp)
    have hsound : Sound ((w.delFromBacklog .evicted gone).release gone) init := by
      have hleft := hs.leave hown htag .evicted (fun _ => rfl) (fun _ => hinit)
      rw [List.append_nil] at hleft
      exact hleft.release hown
    refine ⟨_, ?_, ls, init, hlists, Nat.le_of_eq hinit, hsound⟩
    obtain ⟨n, rfl⟩ : ∃ m, n = m + 1 := ⟨n - 1, by omega⟩
    have hlt : w.tracker.backlogNum > backlogMax := by
      rw [gt_iff_lt, UInt32.lt_iff_toNat_lt]
      omega
    rw [World.trim, if_pos hlt, hfirst]
    apply World.trim_done
    rw [UInt32.le_iff_toNat_le]
    have hcount := hlists.backlogNum
    rw [hinit] at hcount
    exact Nat.le_of_eq hcount
  · refine ⟨w, World.trim_done ?_ n, ls, hdr :: bs, h, ?_, hs⟩
    · rw [UInt32.le_iff_toNat_le]
      omega
    · rw [List.length_cons]
      omega

theorem del_size {t t' : Tracker} (h : del t hdr = some t') :
    t'.mem.size = t.mem.size := by
  rw [del] at h
  split at h
  · cases h
  · cases h
    exact delFrom_size _ _ _

theorem World.free_tracked (h : Tracked w) {ptr : UInt32} (hok : FreeOk w.tracker ptr) :
    ∃ w', w.free ptr = some w' ∧ Tracked w' := by
  obtain ⟨ls, bs, hlists, hlen, hsound⟩ := id h
  by_cases hptr : ptr = 0
  · exact ⟨w, if_pos hptr, h⟩
  · by_cases htag : w.tracker.mem.tag (metaOf ptr) = allocationTag
    · have hown : w.tracker.owned (metaOf ptr) = true :=
        (hok hptr).resolve_right (not_not_intro htag)
      obtain ⟨t, ls', hdel, hoff, howned, hbacklog, htag', _⟩ := hlists.takeLive hown htag
      have hle : t.backlogNum ≤ backlogMax := by
        rw [hbacklog, UInt32.le_iff_toNat_le, hlists.backlogNum]
        exact hlen
      have hin := hoff.intoBacklog (howned ▸ hown) hle
      have hrest : Sound { w with tracker := t } bs :=
        hsound.relink howned (fun a _ => congrFun htag' a) (fun a _ => congrFun (del_size hdel) a)
      have hput := hrest.intoBacklog hoff.offBacklog (howned ▸ hown)
        ((congrFun htag' _).trans htag)
      have hpasses : bs.length < (t.backlogNum + 1).toNat := by
        have hnum := hin.backlogNum
        have hcount : (HeapTracker.intoBacklog t (metaOf ptr)).backlogNum = t.backlogNum + 1 := rfl
        rw [hcount, List.length_cons] at hnum
        omega
      obtain ⟨w', hw', htracked⟩ := World.trim_tracked hin hput hlen hpasses
      refine ⟨w', ?_, htracked⟩
      rw [World.free, if_neg hptr, hdel]
      exact hw'
    · refine ⟨w, ?_, h⟩
      rw [World.free, if_neg hptr, del_other htag]

theorem World.malloc_tracked (h : Tracked w) {r : Option UInt32} (hok : GrantOk w.tracker size r) :
    ∃ x, w.malloc size r = some x ∧ Tracked x.2 := by
  obtain ⟨ls, bs, hlists, hlen, hsound⟩ := id h
  cases r with
  | none => exact ⟨(0, w), rfl, h⟩
  | some hdr =>
    obtain ⟨hfresh, hfits⟩ := hok hdr rfl
    have hown : (w.take hdr).tracker.owned hdr = true := update_self ..
    have hzero : (w.take hdr).tracker.owned 0 = false :=
      (update_of_ne (Ne.symm hfresh.1) _ _).trans hsound.zero
    have hlists' := (hlists.fresh hfresh.2).add hown hzero size
    exact ⟨_, (if_pos hfresh).trans (if_pos hfits), hdr :: ls, bs, hlists', hlen,
      hsound.take hfresh size⟩

theorem World.resize_tracked (h : ListsOff w.tracker hdr ls bs) (hsound : Sound w bs)
    (hlen : bs.length ≤ backlogMax.toNat) (hown : w.tracker.owned hdr = true)
    (ha : a = hdr ∨ Fresh w.tracker a) (hfits : Fits size) :
    ∃ x, w.resize hdr size (some a) = some x ∧ Tracked x.2 := by
  rw [World.resize, if_neg (by simp [hown])]
  by_cases hsame : a = hdr
  · subst hsame
    exact ⟨_, (if_pos rfl).trans (if_pos hfits), a :: ls, bs, h.add hown hsound.zero size, hlen,
      hsound.add a size⟩
  · have hfresh : Fresh w.tracker a := ha.resolve_left hsame
    have hfresh' : Fresh (w.release hdr).tracker a :=
      ⟨hfresh.1, (update_of_ne hsame _ _).trans hfresh.2⟩
    have hsound' := ((hsound.rewrite (update w.front a (w.front hdr))
      (update w.body a (w.body hdr))).release hown).take hfresh' size
    have hown' : ((w.release hdr).take a).tracker.owned a = true := update_self ..
    have hzero : ((w.release hdr).take a).tracker.owned 0 = false :=
      (update_of_ne (Ne.symm hfresh.1) _ _).trans (release_owned_zero hsound.zero hdr)
    have hlists := (h.release.fresh hfresh'.2).add hown' hzero size
    refine ⟨(user a, _), ?_, a :: ls, bs, hlists, hlen, hsound'⟩
    simp only [if_neg hsame, if_pos hfresh]
    exact if_pos hfits

theorem World.realloc_tracked (h : Tracked w) {ptr : UInt32} (hsize : size ≠ 0) (hptr : ptr ≠ 0)
    {r : Option UInt32} (hok : ResizeOk w.tracker (metaOf ptr) size r) :
    ∃ x, w.realloc ptr size r = some x ∧ Tracked x.2 := by
  obtain ⟨ls, bs, hlists, hlen, hsound⟩ := id h
  rw [World.realloc, if_neg hsize, if_neg hptr]
  by_cases hlive : w.tracker.mem.tag (metaOf ptr) = allocationTag
  · obtain ⟨hown, hne, hsome⟩ := hok (.inl hlive)
    obtain ⟨a, ha⟩ := Option.ne_none_iff_exists'.mp (hne hlive)
    subst ha
    obtain ⟨ha, hfits⟩ := hsome a rfl
    obtain ⟨t, ls', hdel, hoff, howned, hbacklog, htag, _⟩ := hlists.takeLive hown hlive
    have hrest : Sound { w with tracker := t } bs :=
      hsound.relink howned (fun a _ => congrFun htag a) (fun a _ => congrFun (del_size hdel) a)
    rw [hdel]
    have hfresh : a = metaOf ptr ∨ Fresh t a := by
      rw [Fresh, howned]
      exact ha
    exact World.resize_tracked hoff hrest hlen (howned ▸ hown) hfresh hfits
  · rw [del_other hlive]
    by_cases hfreed : w.tracker.mem.tag (metaOf ptr) = backlogTag
    · simp only [if_pos hfreed]
      obtain ⟨hown, _, hsome⟩ := hok (.inr hfreed)
      obtain ⟨as, cs, rfl⟩ := List.append_of_mem ((hlists.tagBacklog _).mpr ⟨hown, hfreed⟩)
      have hoff := hlists.offBacklog
      have hleft := hsound.leave hown hfreed .pulled (fun hne => absurd rfl hne) nofun
      have hlen' : (as ++ cs).length ≤ backlogMax.toNat := by
        rw [hlists.backlog.middle.2.2] at hlen
        omega
      cases r with
      | none =>
        refine ⟨(0, w.delFromBacklog .pulled (metaOf ptr)), ?_, ls, as ++ cs, ?_, hlen', hleft⟩
        · have hown' : (w.delFromBacklog .pulled (metaOf ptr)).tracker.owned (metaOf ptr) = true :=
            hown
          rw [World.resize, if_neg (by simp [hown'])]
        · apply hoff.untagged
          rw [delFromBacklog_tag, update_self]
      | some a =>
        obtain ⟨ha, hfits⟩ := hsome a rfl
        exact World.resize_tracked hoff hleft hlen' hown ha hfits
    · simp only [if_neg hfreed]
      exact ⟨_, rfl, h⟩

/-! ## Shutdown -/

theorem Holds.last_none {m : Mem} {e : Ends} {l : List UInt32} (h : Holds m e l) :
    e.last = none ↔ l = [] := by
  rw [h.last, List.head?_eq_none_iff]

theorem World.freeLive_tracked {n : Nat} (h : Lists w.tracker ls bs) (hsound : Sound w bs)
    (hn : ls.length ≤ n) :
    ∃ w', w.freeLive n = some w' ∧ Lists w'.tracker [] bs ∧ Sound w' bs := by
  induction ls generalizing w n with
  | nil =>
    have hlast : w.tracker.live.last = none := h.live.last_none.mpr rfl
    refine ⟨w, ?_, h, hsound⟩
    cases n with
    | zero => exact if_pos hlast
    | succ n => rw [World.freeLive, hlast]
  | cons gone ls ih =>
    obtain ⟨n, rfl⟩ : ∃ m, n = m + 1 := ⟨n - 1, by rw [List.length_cons] at hn; omega⟩
    have hlast : w.tracker.live.last = some gone := h.live.last
    obtain ⟨hown, _⟩ := (h.tagLive gone).mp (by simp)
    rw [← List.nil_append (gone :: ls)] at h
    have hoff : ListsOff (w.delLeak gone).tracker gone ls bs := h.offLive
    have hsound' : Sound (w.delLeak gone) bs := by
      have hrest := hsound.relink (t := (w.delLeak gone).tracker) rfl
        (fun a _ => congrFun (delFrom_tag _ _ _) a) (fun a _ => congrFun (delFrom_size _ _ _) a)
      exact ⟨hrest.zero, hrest.line, fun a ha => (hrest.kept a ha).congr rfl rfl rfl rfl,
        hrest.balanced, hrest.reported⟩
    rw [World.freeLive, hlast]
    exact ih hoff.release (hsound'.release hown) (by rw [List.length_cons] at hn; omega)

/-- The second loop gives back all blocks of the backlog, the oldest first. -/
theorem World.freeBacklog_tracked {n : Nat} (h : Lists w.tracker ls bs) (hsound : Sound w bs)
    (hn : bs.length ≤ n) :
    ∃ w', w.freeBacklog n = some w' ∧ Lists w'.tracker ls [] ∧ Sound w' [] := by
  induction bs using List.reverseRecOn generalizing w n with
  | nil =>
    have hlast : w.tracker.backlog.last = none := h.backlog.last_none.mpr rfl
    refine ⟨w, ?_, h, hsound⟩
    cases n with
    | zero => exact if_pos hlast
    | succ n => exact if_pos hlast
  | append_singleton bs gone ih =>
    rw [List.length_append, List.length_singleton] at hn
    obtain ⟨n, rfl⟩ : ∃ m, n = m + 1 := ⟨n - 1, by omega⟩
    have hlast : ¬ w.tracker.backlog.last = none := by
      rw [h.backlog.last_none]
      simp
    obtain ⟨hfirst, hlists⟩ := h.evict
    obtain ⟨hown, htag⟩ := (h.tagBacklog gone).mp (by simp)
    have hsound' : Sound ((w.delFromBacklog .flushed gone).release gone) bs := by
      have hleft := hsound.leave hown htag .flushed (fun _ => rfl) nofun
      rw [List.append_nil] at hleft
      exact hleft.release hown
    rw [World.freeBacklog, if_neg hlast, hfirst]
    exact ih hlists hsound' (by omega)

theorem World.freeLeakedMemory_tracked (h : Tracked w) :
    ∃ w', w.freeLeakedMemory = some w' ∧ Tracked w' := by
  obtain ⟨ls, bs, hlists, _, hsound⟩ := h
  obtain ⟨u, hu, hulists, husound⟩ :=
    World.freeLive_tracked hlists hsound (Nat.le_of_eq hlists.num.symm)
  obtain ⟨w', hw', hlists', hsound'⟩ :=
    World.freeBacklog_tracked hulists husound (Nat.le_of_eq hulists.backlogNum.symm)
  refine ⟨w', ?_, [], [], hlists', Nat.zero_le _, hsound'⟩
  rw [World.freeLeakedMemory, hu]
  exact hw'

/-! ## Runs -/

theorem World.perform_tracked (h : Tracked w) {c : Call} (hok : CallOk w.tracker c) :
    ∃ w', w.perform (.call c) = some w' ∧ Tracked w' := by
  -- the wrapped functions also return a pointer, which is dropped
  have hdrop : ∀ o : Option (UInt32 × World), (∃ x, o = some x ∧ Tracked x.2) →
      ∃ w', o.map Prod.snd = some w' ∧ Tracked w' := by
    intro o ho
    obtain ⟨x, rfl, hx⟩ := ho
    exact ⟨x.2, rfl, hx⟩
  cases c with
  | malloc size r => exact hdrop _ (World.malloc_tracked h hok)
  | calloc nmemb size r =>
    apply hdrop
    cases r with
    | none => exact ⟨(0, w), rfl, h⟩
    | some hdr =>
      obtain ⟨ls, bs, hlists, hlen, hsound⟩ := h
      have hcleared : Tracked { w with
          front := update w.front hdr fun _ => 0
          body := update w.body hdr fun _ => 0 } :=
        ⟨ls, bs, hlists, hlen, hsound.rewrite _ _⟩
      exact World.malloc_tracked hcleared hok
  | free ptr => exact World.free_tracked h hok
  | realloc ptr size r =>
    apply hdrop
    rw [CallOk] at hok
    split at hok
    · next hsize =>
      obtain ⟨w', hw', htracked⟩ := World.free_tracked h hok
      exact ⟨(0, w'), by rw [World.realloc, if_pos hsize, hw']; rfl, htracked⟩
    · next hsize =>
      split at hok
      · next hptr =>
        obtain ⟨x, hx, htracked⟩ := World.malloc_tracked h hok
        exact ⟨x, by rw [World.realloc, if_neg hsize, if_pos hptr, hx], htracked⟩
      · next hptr => exact World.realloc_tracked h hsize hptr hok

theorem World.step_tracked (h : Tracked w) {e : Turn} (hok : TurnOk w e) :
    ∃ w', w.step e = some w' ∧ Tracked w' := by
  obtain ⟨ls, bs, hlists, hlen, hsound⟩ := h
  have hscribbled : Tracked (w.scribble e) :=
    ⟨ls, bs, hlists.scribble e.wild, hlen, hsound.scribble e⟩
  rw [World.step]
  rw [TurnOk] at hok
  cases hact : e.act with
  | call c =>
    rw [hact] at hok
    exact World.perform_tracked hscribbled hok
  | shutdown => exact World.freeLeakedMemory_tracked hscribbled

theorem World.initial_tracked (e : Turn) : Tracked (World.initial e) := by
  obtain ⟨ls, bs, hlists, hle⟩ := initial_trackerInv e.wild
  have hnil : bs = [] := by
    apply List.eq_nil_of_length_eq_zero
    rw [← hlists.backlogNum]
    rfl
  subst hnil
  exact ⟨ls, [], hlists, Nat.zero_le _, ⟨rfl, Line.ok_init _, nofun, fun _ => rfl, nofun⟩⟩

/-- Over every sequence of calls and shutdowns that meet the condition of `trackerInv_iff`,
whatever is written into the blocks and around them: every call returns, and `Quarantined`
holds after each of them. -/
theorem quarantine_lawful (start : Turn) (turns : List Turn)
    (h : Guarded World.step TurnOk (World.initial start) turns) :
    Always World.step Quarantined (World.initial start) turns :=
  h.always (J := Tracked) (fun _ hw => hw.quarantined) (fun _ _ hw hok => World.step_tracked hw hok)
    (World.initial_tracked start)

/-- A turn before which the program has written `v` into all bytes. -/
def writing (v : UInt8) (act : Act) : Turn := ⟨blank, fun _ _ => v, fun _ _ => v, act⟩

/-- A block is freed, pulled out by a realloc, freed again, and given back at shutdown. -/
def freedTwice : List Turn :=
  [writing 0 (.call (.malloc 8 (some 0x1000))), writing 1 (.call (.free 0x10a0)),
    writing 2 (.call (.realloc 0x10a0 16 (some 0x1000))), writing 3 (.call (.free 0x10a0)),
    writing 4 .shutdown]

theorem quarantine_lawful_freedTwice :
    Guarded World.step TurnOk (World.initial (writing 0 .shutdown)) freedTwice ∧
    Always World.step Quarantined (World.initial (writing 0 .shutdown)) freedTwice := by
  have hguarded : Guarded World.step TurnOk (World.initial (writing 0 .shutdown)) freedTwice := by
    refine .cons ?_ rfl (.cons ?_ rfl (.cons ?_ rfl (.cons ?_ rfl (.cons trivial rfl trivial))))
    · intro hdr hr
      cases hr
      decide
    · intro _
      exact .inl (by decide)
    · intro _
      refine ⟨by decide, by decide, ?_⟩
      intro a hr
      cases hr
      exact ⟨.inl rfl, by decide⟩
    · intro _
      exact .inl (by decide)
  exact ⟨hguarded, quarantine_lawful _ _ hguarded⟩

def block (n : Nat) : UInt32 := 0x1000 * (n + 1).toUInt32

/-- 52 blocks; the first two are freed, the second of them is reallocated, and the other
50 are freed. -/
def reallocBehind : List Turn :=
  (List.range 52).map (fun n => writing 0 (.call (.malloc 8 (some (block n))))) ++
  [writing 0 (.call (.free (user (block 0)))), writing 0 (.call (.free (user (block 1)))),
    writing 0 (.call (.realloc (user (block 1)) 8 (some (block 1))))] ++
  (List.range 50).map fun n => writing 0 (.call (.free (user (block (n + 2)))))

/-- A freed block is overwritten, and the poison is put back before the shutdown. -/
def overwritten : List Turn :=
  [writing 0 (.call (.malloc 8 (some 0x1000))), writing 0 (.call (.free 0x10a0)),
    writing 7 (.call (.free 0))]

def restored : Turn :=
  ⟨blank, fun _ _ => frontGuard, fun _ i => if i < 8 then freePoison else rearGuard, .shutdown⟩

/-- A block that realloc has moved is freed under its old address, where its tag still
stands. -/
def staleFree : List Turn :=
  [writing 0 (.call (.malloc 8 (some 0x1000))),
    writing 0 (.call (.realloc 0x10a0 16 (some 0x2000))),
    ⟨{ blank with tag := fun a => if a = 0x1000 then allocationTag else 0 }, fun _ _ => 0,
      fun _ _ => 0, .call (.free 0x10a0)⟩,
    writing 0 .shutdown]

set_option maxRecDepth 4000 in
/-- A block waits longer than 50 frees if a later one is reallocated; a change that is
undone is not seen; and through a stale pointer a block is given back twice. -/
theorem quarantine_exceptions :
    (∃ w, run World.step (World.initial (writing 0 .shutdown)) reallocBehind = some w ∧
      ∃ d ∈ w.line.left, d.name = block 0 ∧ d.way = .evicted ∧ d.puts = d.ticket + 1 + 51) ∧
    (∃ w, run World.step (World.initial (writing 0 .shutdown)) overwritten = some w ∧
      w.userChanged 0x1000 = true ∧ ∃ w', w.step restored = some w' ∧
      ∃ d ∈ w'.line.left, d.name = 0x1000 ∧ d.info.reports = []) ∧
    ∃ w, run World.step (World.initial (writing 0 .shutdown)) staleFree = some w ∧
      w.taken 0x1000 = 1 ∧ w.returned 0x1000 = 2 := by
  refine ⟨?_, ⟨_, rfl, by decide, _, rfl, _, List.mem_singleton_self _, rfl, by decide⟩,
    _, rfl, by decide, by decide⟩
  have heval : (run World.step (World.initial (writing 0 .shutdown)) reallocBehind).any
      (fun w => w.line.left.any fun d =>
        d.name == block 0 && d.way == .evicted && d.puts == d.ticket + 1 + 51) = true := by
    decide +kernel
  obtain ⟨w, hw, hany⟩ := (Option.any_eq_true _ _).mp heval
  obtain ⟨d, hd, hall⟩ := List.any_eq_true.mp hany
  simp only [Bool.and_eq_true, beq_iff_eq] at hall
  exact ⟨w, hw, d, hd, hall.1.1, hall.1.2, hall.2⟩

end Omap4Hal.HeapTracker

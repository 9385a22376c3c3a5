import Omap4Hal.Lib.KeyedVector
import Omap4Hal.Lib.Run
import Mathlib.Data.List.Nodup
import Mathlib.Data.List.Perm.Subperm

/- The buffers of the V4L camera adapter (`V4LCameraAdapter.cpp`). The adapter numbers the preview
   buffers it is given in their order, and keeps the numbers in a vector that is ordered by
   address. A returned frame is looked up by its address; a frame that the driver has filled is
   found at its number's place in the vector, which is another buffer unless the addresses ascend.
   `identity_iff` says in which runs a number stands for one buffer.

   A call is one step, although the threads share `mVideoInfo->buf`. -/
namespace Omap4Hal.Camera.V4L

open Lib

/-! ## The adapter -/

inductive Status where
  | noError
  | badValue
  | noInit
  deriving DecidableEq

structure V4LCameraAdapter where
  /-- The address of a buffer, as an `int`, and its index. -/
  mPreviewBufs : KeyedVector Int32 Int := .empty
  /-- `none` until it is set. -/
  mPreviewBufferCount : Option Nat := none
  mPreviewing : Bool := false
  isStreaming : Bool := false
  /-- Whether there is a preview thread. -/
  mPreviewThread : Bool := false
  /-- The indexes that the driver has queued (`mCameraHandle`). -/
  queued : List Nat := []

namespace V4LCameraAdapter

variable (a : V4LCameraAdapter)

/-- The buffers with their indexes. -/
def numbered (ptr : List UInt32) : List (Int32 × Int) :=
  ptr.zipIdx.map fun p => (Int32.ofUInt32 p.1, (p.2 : Int))

/-- `bufArr` may be NULL. The driver forgets the buffers it had. -/
def UseBuffersPreview (bufArr : Option (List UInt32)) : Status × V4LCameraAdapter :=
  match bufArr with
  | none => (.badValue, a)
  | some ptr => (.noError, { a with
      queued := []
      mPreviewBufs := a.mPreviewBufs.addAll (numbered ptr)
      mPreviewBufferCount := some ptr.length })

/-- `none` where the number of buffers was never set. -/
def startPreview : Option (Status × V4LCameraAdapter) :=
  if a.mPreviewing then some (.badValue, a)
  else a.mPreviewBufferCount.map fun count => (.noError, { a with
    queued := a.queued ++ List.range count
    isStreaming := true
    mPreviewThread := true
    mPreviewing := true })

/-- Turning the stream off empties the queue. `none` where there is no thread to end. -/
def stopPreview : Option (Status × V4LCameraAdapter) :=
  if ¬ a.mPreviewing then some (.noInit, a)
  else
    let a := if a.isStreaming then { a with isStreaming := false, queued := [] } else a
    let a := { a with mPreviewBufs := .empty }
    if a.mPreviewThread then some (.noError, { a with mPreviewThread := false }) else none

/-- One turn of the thread, with the index that the driver gives out: the buffer of the frame, if
the preview is on. `none` where the vector has no such place. -/
def previewThread (index : Nat) : Option (Option UInt32 × V4LCameraAdapter) :=
  if a.mPreviewing then
    a.mPreviewBufs.keys[index]?.map fun key =>
      (some key.toUInt32, { a with queued := a.queued.erase index })
  else some (none, a)

/-- `none` where the frame has no index. -/
def fillThisBuffer (frameBuf : UInt32) : Option (Status × V4LCameraAdapter) :=
  if ¬ a.isStreaming then some (.noError, a)
  else (a.mPreviewBufs.valueFor (Int32.ofUInt32 frameBuf)).map fun i =>
    if i < 0 then (.badValue, a) else (.noError, { a with queued := a.queued ++ [i.toNat] })

end V4LCameraAdapter

/-! ## Runs -/

inductive Call where
  | useBuffersPreview (bufArr : Option (List UInt32))
  | startPreview
  | stopPreview
  /-- A turn of the preview thread, with the index of the driver. -/
  | deliver (index : Nat)
  /-- The return of a frame, and the index it was delivered for. -/
  | fillThisBuffer (frameBuf : UInt32) (index : Nat)

structure World where
  adapter : V4LCameraAdapter := {}
  /-- The array of buffers given last. -/
  bufs : List UInt32 := []
  /-- The frames that were delivered and not returned, with their indexes. -/
  held : List (UInt32 × Nat) := []
  /-- The preview was stopped after its last start. -/
  stopped : Bool := false
  /-- And new buffers were given since. -/
  renewed : Bool := false
  /-- What the last call returned. -/
  ret : Status := .noError

/-- The driver takes no buffers while it streams, gives out indexes that are queued, and a frame
that is returned was delivered. -/
def step (w : World) : Call → Option World
  | .useBuffersPreview bufArr =>
    if w.adapter.isStreaming then none
    else
      let (ret, a) := w.adapter.UseBuffersPreview bufArr
      match bufArr with
      | none => some { w with adapter := a, ret := ret }
      | some ptr => some { w with adapter := a, ret := ret, bufs := ptr, renewed := w.stopped }
  | .startPreview => w.adapter.startPreview.map fun (ret, a) =>
      if ret = .noError then
        { w with adapter := a, ret := ret, stopped := false, renewed := false }
      else { w with adapter := a, ret := ret }
  | .stopPreview => w.adapter.stopPreview.map fun (ret, a) =>
      if ret = .noError then
        { w with adapter := a, ret := ret, stopped := true, renewed := false }
      else { w with adapter := a, ret := ret }
  | .deliver index =>
    if w.adapter.mPreviewThread ∧ index ∈ w.adapter.queued then
      (w.adapter.previewThread index).map fun (frame, a) =>
        { w with adapter := a, held := (frame.map (·, index)).toList ++ w.held }
    else none
  | .fillThisBuffer frameBuf index =>
    if (frameBuf, index) ∈ w.held then
      (w.adapter.fillThisBuffer frameBuf).map fun (ret, a) =>
        { w with adapter := a, ret := ret, held := w.held.erase (frameBuf, index) }
    else none

/-- The buffers of an array are pairwise different. -/
def Distinct : Call → Prop
  | .useBuffersPreview (some ptr) => ptr.Nodup
  | _ => True

/-- What should hold of a call that leads from `w` to `w'`. -/
def Fulfils (w : World) (c : Call) (w' : World) : Prop :=
  w'.adapter.queued.Nodup ∧
    match c with
    | .startPreview => w.renewed → w'.ret = .noError
    | .deliver index => ∃ frame, w.bufs[index]? = some frame ∧ w'.held = (frame, index) :: w.held
    | .fillThisBuffer _ index => w.adapter.isStreaming →
        w'.adapter.queued = w.adapter.queued ++ [index]
    | .useBuffersPreview _ | .stopPreview => True

def Keeps (w : World) (c : Call) : Prop := ∀ w', step w c = some w' → Fulfils w c w'

/-- The preview is not started again, and a frame is delivered for an index only if as many
buffers have a lower address as its own. -/
def Ascends (w : World) : Call → Prop
  | .startPreview => w.renewed = false
  | .deliver index => w.adapter.mPreviewThread → index ∈ w.adapter.queued →
      ∀ frame, w.bufs[index]? = some frame →
        w.adapter.mPreviewBufs.keys.countP (· < Int32.ofUInt32 frame) = index
  | .useBuffersPreview _ | .stopPreview | .fillThisBuffer _ _ => True

/-! ## The vector of buffers -/

variable {a : V4LCameraAdapter} {bufs : List UInt32}

/-- The array is the last that was given, and the vector has its indexes. -/
structure Supplied (a : V4LCameraAdapter) (bufs : List UInt32) : Prop where
  count : a.mPreviewBufferCount = some bufs.length
  nodup : bufs.Nodup
  index : ∀ {i : Nat} {frame : UInt32}, bufs[i]? = some frame →
    a.mPreviewBufs.valueFor (Int32.ofUInt32 frame) = some (i : Int)

theorem ofUInt32_injective : Function.Injective Int32.ofUInt32 :=
  fun _ _ h => congrArg Int32.toUInt32 h

theorem keys_numbered (ptr : List UInt32) :
    (V4LCameraAdapter.numbered ptr).map Prod.fst = ptr.map Int32.ofUInt32 := by
  rw [V4LCameraAdapter.numbered, List.map_map, ← List.zipIdx_map_fst 0 (ptr.map Int32.ofUInt32),
    List.zipIdx_map, List.map_map]
  rfl

theorem supplied_useBuffersPreview (h : bufs.Nodup) :
    Supplied (a.UseBuffersPreview (some bufs)).2 bufs where
  count := rfl
  nodup := h
  index := by
    intro i frame hi
    refine KeyedVector.valueFor_addAll ?_ (List.mem_map.mpr ⟨(frame, i), ?_, rfl⟩)
    · rw [keys_numbered]
      exact h.map ofUInt32_injective
    · exact List.mk_mem_zipIdx_iff_getElem?.mpr hi

theorem Supplied.keyAt (hs : Supplied a bufs) {i : Nat} (hi : i < bufs.length) :
    ∃ key, a.mPreviewBufs.keys[i]? = some key := by
  have hsub : bufs.map Int32.ofUInt32 ⊆ a.mPreviewBufs.keys := by
    intro key hkey
    obtain ⟨frame, hframe, rfl⟩ := List.mem_map.mp hkey
    obtain ⟨j, hj⟩ := List.mem_iff_getElem?.mp hframe
    exact KeyedVector.mem_keys_iff.mpr ⟨_, hs.index hj⟩
  have hle := (List.subperm_of_subset (hs.nodup.map ofUInt32_injective) hsub).length_le
  rw [List.length_map] at hle
  exact ⟨_, List.getElem?_eq_getElem (Nat.lt_of_lt_of_le hi hle)⟩

/-- The place of a buffer in the vector is its index in the array exactly if so many buffers have
a lower address. -/
theorem Supplied.keyAt_iff (hs : Supplied a bufs) {i : Nat} {frame : UInt32}
    (hi : bufs[i]? = some frame) :
    a.mPreviewBufs.keys[i]? = some (Int32.ofUInt32 frame) ↔
      a.mPreviewBufs.keys.countP (· < Int32.ofUInt32 frame) = i := by
  have hmem := KeyedVector.mem_keys_iff.mpr ⟨_, hs.index hi⟩
  rw [KeyedVector.keys_getElem?_iff]
  exact and_iff_right hmem

/-! ## The preview -/

variable {w w' : World}

/-- While the driver streams, an index is queued or stands for a frame that is held. -/
structure Streams (w : World) : Prop where
  previewing : w.adapter.mPreviewing = true
  supplied : Supplied w.adapter w.bufs
  queued : ∀ i ∈ w.adapter.queued, i < w.bufs.length
  held : ∀ p ∈ w.held, w.bufs[p.2]? = some p.1 ∧ p.2 ∉ w.adapter.queued
  once : (w.held.map Prod.snd).Nodup

/-- Before the first start. -/
structure Idle (w : World) : Prop where
  stream : w.adapter.isStreaming = false
  queued : w.adapter.queued = []
  held : w.held = []
  stopped : w.stopped = false
  renewed : w.renewed = false
  supplied : ∀ n, w.adapter.mPreviewBufferCount = some n → Supplied w.adapter w.bufs

structure Inv (w : World) : Prop where
  distinct : w.adapter.queued.Nodup
  thread : w.adapter.mPreviewThread = w.adapter.isStreaming
  idle : w.adapter.mPreviewing = false → Idle w
  streams : w.adapter.isStreaming = true → Streams w

theorem Inv.start : Inv {} where
  distinct := List.nodup_nil
  thread := rfl
  idle _ := ⟨rfl, rfl, rfl, rfl, rfl, fun _ h => absurd h (by simp)⟩
  streams h := absurd h (by simp)

theorem Inv.returns (hw : Inv w) (ret : Status) : Inv { w with ret := ret } where
  distinct := hw.distinct
  thread := hw.thread
  idle hp := { hw.idle hp with }
  streams hs := { hw.streams hs with }

theorem inv_useBuffersPreview {bufArr : Option (List UInt32)} (hw : Inv w)
    (hd : Distinct (.useBuffersPreview bufArr))
    (h : step w (.useBuffersPreview bufArr) = some w') : Inv w' := by
  simp only [step] at h
  split at h
  · cases h
  next hstream =>
    cases bufArr with
    | none =>
      cases h
      exact hw.returns _
    | some ptr =>
      cases h
      refine ⟨List.nodup_nil, hw.thread, fun hp => ?_, fun hs => absurd hs hstream⟩
      have hidle := hw.idle hp
      exact ⟨hidle.stream, rfl, hidle.held, hidle.stopped, hidle.stopped, fun _ _ =>
        supplied_useBuffersPreview hd⟩

theorem startPreview_previewing (h : a.mPreviewing = true) :
    a.startPreview = some (.badValue, a) := if_pos h

theorem inv_startPreview (hw : Inv w) (h : step w .startPreview = some w') : Inv w' := by
  by_cases hp : w.adapter.mPreviewing = true
  · simp only [step, startPreview_previewing hp] at h
    cases h
    exact hw.returns _
  · have hidle := hw.idle (Bool.eq_false_iff.mpr hp)
    simp only [step, V4LCameraAdapter.startPreview, if_neg hp, Option.map_map] at h
    obtain ⟨count, hcount, rfl⟩ := Option.map_eq_some_iff.mp h
    have hsupplied := hidle.supplied count hcount
    cases hcount.symm.trans hsupplied.count
    have hqueued : w.adapter.queued ++ List.range w.bufs.length = List.range w.bufs.length := by
      rw [hidle.queued, List.nil_append]
    simp only [Function.comp_apply, if_true, hqueued]
    refine ⟨List.nodup_range, rfl, fun h => absurd h (by simp), fun _ => ?_⟩
    exact {
      previewing := rfl
      supplied := ⟨hsupplied.count, hsupplied.nodup, hsupplied.index⟩
      queued := fun i hi => List.mem_range.mp hi
      held := by simp [hidle.held]
      once := by simp [hidle.held] }

theorem stopPreview_streaming (hp : a.mPreviewing = true) (hs : a.isStreaming = true)
    (ht : a.mPreviewThread = true) : a.stopPreview = some (.noError, { a with
      isStreaming := false
      queued := []
      mPreviewBufs := .empty
      mPreviewThread := false }) := by
  simp [V4LCameraAdapter.stopPreview, hp, hs, ht]

theorem inv_stopPreview (hw : Inv w) (h : step w .stopPreview = some w') : Inv w' := by
  by_cases hp : w.adapter.mPreviewing = true
  · by_cases hs : w.adapter.isStreaming = true
    · simp only [step, stopPreview_streaming hp hs (hw.thread.trans hs), Option.map_some, if_true,
        Option.some.injEq] at h
      subst h
      exact ⟨List.nodup_nil, rfl, fun hq => absurd (hp.symm.trans hq) (by simp),
        fun hs => absurd hs (by simp)⟩
    · simp [step, V4LCameraAdapter.stopPreview, hp, hs, hw.thread] at h
  · simp only [step, V4LCameraAdapter.stopPreview, hp] at h
    cases h
    exact hw.returns _

theorem step_deliver {index : Nat} (hs : Streams w) (hthread : w.adapter.mPreviewThread)
    (hindex : index ∈ w.adapter.queued) :
    step w (.deliver index) = (w.adapter.mPreviewBufs.keys[index]?).map fun key =>
      { w with
        adapter := { w.adapter with queued := w.adapter.queued.erase index }
        held := (key.toUInt32, index) :: w.held } := by
  simp only [step, V4LCameraAdapter.previewThread, if_pos (And.intro hthread hindex),
    if_pos hs.previewing, Option.map_map]
  rfl

theorem enabled_deliver {index : Nat} (h : step w (.deliver index) = some w') :
    w.adapter.mPreviewThread ∧ index ∈ w.adapter.queued := by
  by_contra hnot
  simp [step, if_neg hnot] at h

/-- A frame that is delivered is the buffer of its index exactly if so many buffers have a lower
address. -/
theorem keeps_deliver_iff {index : Nat} (hw : Inv w) :
    Keeps w (.deliver index) ↔ Ascends w (.deliver index) := by
  constructor
  · intro hk hthread hindex frame hframe
    have hs := hw.streams (hw.thread ▸ hthread)
    obtain ⟨key, hkey⟩ := hs.supplied.keyAt (hs.queued index hindex)
    obtain ⟨-, frame', hframe', hheld⟩ :=
      hk _ ((step_deliver hs hthread hindex).trans (congrArg _ hkey))
    cases hframe.symm.trans hframe'
    have hhead := congrArg Prod.fst (List.cons.inj hheld).1
    refine (hs.supplied.keyAt_iff hframe).mp (hkey.trans (congrArg some ?_))
    exact congrArg Int32.ofUInt32 hhead
  · intro ha w' h
    obtain ⟨hthread, hindex⟩ := enabled_deliver h
    have hs := hw.streams (hw.thread ▸ hthread)
    have hframe := List.getElem?_eq_getElem (hs.queued index hindex)
    have hkey := (hs.supplied.keyAt_iff hframe).mpr (ha hthread hindex _ hframe)
    rw [step_deliver hs hthread hindex, hkey] at h
    cases h
    exact ⟨hw.distinct.erase index, _, hframe, rfl⟩

theorem inv_deliver {index : Nat} (hw : Inv w) (hk : Keeps w (.deliver index))
    (h : step w (.deliver index) = some w') : Inv w' := by
  obtain ⟨hthread, hindex⟩ := enabled_deliver h
  have hs := hw.streams (hw.thread ▸ hthread)
  obtain ⟨-, frame, hframe, hheld⟩ := hk w' h
  rw [step_deliver hs hthread hindex] at h
  obtain ⟨key, -, rfl⟩ := Option.map_eq_some_iff.mp h
  have hp := hs.previewing
  refine ⟨hw.distinct.erase index, hw.thread, fun hq => absurd (hp.symm.trans hq) (by simp),
    fun _ => ?_⟩
  exact {
    previewing := hp
    supplied := ⟨hs.supplied.count, hs.supplied.nodup, hs.supplied.index⟩
    queued := fun i hi => hs.queued i (List.mem_of_mem_erase hi)
    held := by
      rw [hheld]
      intro p hp
      rcases List.mem_cons.mp hp with rfl | hp
      · exact ⟨hframe, fun hmem => (hw.distinct.mem_erase_iff.mp hmem).1 rfl⟩
      · exact ⟨(hs.held p hp).1, fun hmem => (hs.held p hp).2 (List.mem_of_mem_erase hmem)⟩
    once := by
      rw [hheld, List.map_cons, List.nodup_cons]
      refine ⟨fun hmem => ?_, hs.once⟩
      obtain ⟨p, hp, rfl⟩ := List.mem_map.mp hmem
      exact (hs.held p hp).2 hindex }

theorem step_fillThisBuffer {frame : UInt32} {index : Nat} (hs : Streams w)
    (hstream : w.adapter.isStreaming = true) (hheld : (frame, index) ∈ w.held) :
    step w (.fillThisBuffer frame index) = some { w with
      adapter := { w.adapter with queued := w.adapter.queued ++ [index] }
      ret := .noError
      held := w.held.erase (frame, index) } := by
  have hi : w.adapter.mPreviewBufs.valueFor (Int32.ofUInt32 frame) = some (index : Int) :=
    hs.supplied.index (hs.held _ hheld).1
  have hpos : ¬ (index : Int) < 0 := by omega
  simp only [step, V4LCameraAdapter.fillThisBuffer, if_pos hheld, hstream, not_true_eq_false,
    if_false, hi, Option.map_some, if_neg hpos, Int.toNat_natCast]

theorem keeps_fillThisBuffer {frame : UInt32} {index : Nat} (hw : Inv w) :
    Keeps w (.fillThisBuffer frame index) ∧
      ∀ w', step w (.fillThisBuffer frame index) = some w' → Inv w' := by
  rw [Keeps, ← forall₂_and]
  intro w' h
  have hheld : (frame, index) ∈ w.held := by
    by_contra hnot
    simp [step, if_neg hnot] at h
  by_cases hstream : w.adapter.isStreaming = true
  · have hs := hw.streams hstream
    obtain ⟨hframe, hfresh⟩ := hs.held _ hheld
    rw [step_fillThisBuffer hs hstream hheld] at h
    cases h
    have hnodup : (w.adapter.queued ++ [index]).Nodup :=
      List.nodup_append.mpr ⟨hw.distinct, List.nodup_singleton _, by
        intro i hi j hj
        obtain rfl := List.mem_singleton.mp hj
        rintro rfl
        exact hfresh hi⟩
    -- the other frames that are held have other indexes
    have hperm := (List.perm_cons_erase hheld).map Prod.snd
    have honce := hperm.nodup_iff.mp hs.once
    rw [List.map_cons, List.nodup_cons] at honce
    refine ⟨⟨hnodup, fun _ => rfl⟩, hnodup, hw.thread,
      fun hq => absurd (hs.previewing.symm.trans hq) (by simp), fun _ => ?_⟩
    exact {
      previewing := hs.previewing
      supplied := ⟨hs.supplied.count, hs.supplied.nodup, hs.supplied.index⟩
      queued := by
        intro i hi
        rcases List.mem_append.mp hi with hi | hi
        · exact hs.queued i hi
        · obtain rfl := List.mem_singleton.mp hi
          exact (List.getElem?_eq_some_iff.mp hframe).1
      held := by
        intro p hp
        obtain ⟨hbuf, hnot⟩ := hs.held p (List.mem_of_mem_erase hp)
        refine ⟨hbuf, fun hmem => ?_⟩
        rcases List.mem_append.mp hmem with hmem | hmem
        · exact hnot hmem
        · have hsnd := List.mem_map_of_mem (f := Prod.snd) hp
          rw [List.mem_singleton.mp hmem] at hsnd
          exact honce.1 hsnd
      once := honce.2 }
  · simp only [step, V4LCameraAdapter.fillThisBuffer, if_pos hheld, if_pos hstream] at h
    cases h
    refine ⟨⟨hw.distinct, fun hs => absurd hs hstream⟩, hw.distinct, hw.thread, fun hp => ?_,
      fun hs => absurd hs hstream⟩
    exact absurd hheld (by simp [(hw.idle hp).held])

theorem keeps_iff {c : Call} (hw : Inv w) (hd : Distinct c) : Keeps w c ↔ Ascends w c := by
  cases c with
  | useBuffersPreview bufArr =>
    exact iff_of_true (fun w' h => ⟨(inv_useBuffersPreview hw hd h).distinct, trivial⟩) trivial
  | stopPreview =>
    exact iff_of_true (fun w' h => ⟨(inv_stopPreview hw h).distinct, trivial⟩) trivial
  | deliver index => exact keeps_deliver_iff hw
  | fillThisBuffer frame index => exact iff_of_true (keeps_fillThisBuffer hw).1 trivial
  | startPreview =>
    constructor
    · intro hk
      by_contra hrenewed
      have hp : w.adapter.mPreviewing = true := by
        by_contra hp
        exact hrenewed (hw.idle (Bool.eq_false_iff.mpr hp)).renewed
      have hok := (hk _ (by rw [step, startPreview_previewing hp]; rfl)).2
        (Bool.eq_false_iff.not_left.mp hrenewed)
      exact absurd hok (fun h : Status.badValue = .noError => by cases h)
    · intro hr w' h
      refine ⟨(inv_startPreview hw h).distinct, fun hrenewed => ?_⟩
      rw [Ascends] at hr
      exact absurd (hr.symm.trans hrenewed) (by decide)

theorem inv_step {c : Call} (hw : Inv w) (hd : Distinct c) (hk : Keeps w c)
    (h : step w c = some w') : Inv w' := by
  cases c with
  | useBuffersPreview bufArr => exact inv_useBuffersPreview hw hd h
  | startPreview => exact inv_startPreview hw h
  | stopPreview => exact inv_stopPreview hw h
  | deliver index => exact inv_deliver hw hk h
  | fillThisBuffer frame index => exact (keeps_fillThisBuffer hw).2 w' h

/-- An index stands for one buffer and is queued once exactly in the runs that do not start the
preview again and deliver the buffers that stand at their index's place among the addresses. -/
theorem identity_iff (calls : List Call) (hdistinct : ∀ c ∈ calls, Distinct c) :
    Guarded step Keeps {} calls ↔ Guarded step Ascends {} calls := by
  refine guarded_congr_of_forall (J := Inv) ?_ ?_ Inv.start hdistinct
  · exact fun w c hw hd => keeps_iff hw hd
  · exact fun w c w' hw hd ha h => inv_step hw hd ((keeps_iff hw hd).mpr ha) h

def ascending : List UInt32 := [0x1000, 0x2000]

/-- A frame that is delivered and returned. -/
theorem identity_ascending :
    Guarded step Keeps {} [.useBuffersPreview (some ascending), .startPreview, .deliver 0,
      .fillThisBuffer 0x1000 0, .stopPreview] := by
  refine (identity_iff _ ?_).mpr ?_
  · simp only [List.forall_mem_cons, Distinct, ascending]
    exact ⟨by decide, trivial, trivial, trivial, trivial, by simp⟩
  · refine .cons trivial rfl (.cons rfl rfl (.cons ?_ rfl (.cons trivial rfl
      (.cons trivial rfl trivial))))
    intro _ _ frame hframe
    cases hframe
    decide

def descending : List UInt32 := [0x2000, 0x1000]

/-- With the second buffer below the first, the frame of index 0 is in the second buffer, and
returning it queues index 1, which is queued. A preview that was stopped is not started again. -/
theorem identity_not_kept :
    let calls : List Call :=
      [.useBuffersPreview (some descending), .startPreview, .deliver 0, .fillThisBuffer 0x1000 0]
    let again : List Call :=
      [.useBuffersPreview (some ascending), .startPreview, .stopPreview,
        .useBuffersPreview (some ascending), .startPreview]
    (∃ w, run step {} calls = some w ∧ w.adapter.queued = [1, 1]) ∧
    (∃ w, run step {} again = some w ∧ w.ret = .badValue) ∧
    ¬ Guarded step Keeps {} calls ∧ ¬ Guarded step Keeps {} again := by
  refine ⟨⟨_, rfl, by decide⟩, ⟨_, rfl, by decide⟩, ?_, ?_⟩
  · rintro ⟨-, h⟩
    obtain ⟨-, frame, hframe, hheld⟩ := ((h _ rfl).2 _ rfl).1 _ rfl
    cases hframe
    exact absurd (List.cons.inj hheld).1 (by decide)
  · rintro ⟨-, h⟩
    have hlast := ((((h _ rfl).2 _ rfl).2 _ rfl).2 _ rfl).1 _ rfl
    exact absurd (hlast.2 rfl) (by decide)

end Omap4Hal.Camera.V4L

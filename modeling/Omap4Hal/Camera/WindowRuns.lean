import Mathlib.Data.List.Pairwise
import Omap4Hal.Camera.WindowBuffers

/- The runs in which the buffers of the preview window keep their owners. The camera's buffers are
   those that the window has given out; each of them is in the map of the camera's frames, under its
   handle and with its index in the maps of handles, wherever these have it. -/
namespace Omap4Hal.Camera.WindowBuffers

open Lib
open KeyedVector
open WindowBuffers.Adapter
open Option (bind_eq_bind bind_some getD_none map_some)

variable {a a' : Adapter} {b b' : Buffer}

structure Inv (a : Adapter) : Prop where
  keys : ∀ h, h ∈ a.mFramesWithCameraAdapterMap.keys ↔ ∃ b ∈ a.dequeued, b.handle = h
  apart : a.dequeued.Pairwise Apart
  nonzero : ∀ b ∈ a.dequeued, b.handle ≠ 0
  filed : ∀ b ∈ a.dequeued, ∀ i, a.bufferHandle i = some b.hndl →
    a.grallocHandle i = some b.handle ∧
      a.mFramesWithCameraAdapterMap.valueFor b.handle = some (i : Int)
  injective : ∀ i j h, a.grallocHandle i = some h → a.grallocHandle j = some h → i = j

instance : Std.Symm Apart where
  symm _ _ h := ⟨h.1.symm, h.2.symm⟩

theorem Inv.eq_of_hndl (ha : Inv a) (hb : b ∈ a.dequeued) (hb' : b' ∈ a.dequeued)
    (h : b.hndl = b'.hndl) : b = b' := by
  by_contra hne
  exact (ha.apart.forall hb hb' hne).1 h

theorem Inv.eq_of_handle (ha : Inv a) (hb : b ∈ a.dequeued) (hb' : b' ∈ a.dequeued)
    (h : b.handle = b'.handle) : b = b' := by
  by_contra hne
  exact (ha.apart.forall hb hb' hne).2 h

theorem Inv.sound (ha : Inv a) : Sound a where
  nodup := ha.apart.imp fun h heq => h.1 (congrArg Buffer.hndl heq)
  keys := ha.keys

theorem Inv.start : Inv {} where
  keys h := by simp [KeyedVector.keys]
  apart := .nil
  nonzero := by simp
  filed := by simp
  injective i j h hi := by simp [grallocHandle] at hi

theorem Inv.of_empty (hnil : a.dequeued = []) (hkeys : a.mFramesWithCameraAdapterMap.keys = [])
    (hinj : ∀ i j h, a.grallocHandle i = some h → a.grallocHandle j = some h → i = j) :
    Inv a where
  keys h := by simp [hkeys, hnil]
  apart := hnil ▸ .nil
  nonzero := by simp [hnil]
  filed := by simp [hnil]
  injective := hinj

theorem Inv.keys_eq_nil (ha : Inv a) (hnil : a.dequeued = []) :
    a.mFramesWithCameraAdapterMap.keys = [] := by
  refine List.eq_nil_iff_forall_not_mem.mpr fun h hh => ?_
  obtain ⟨b, hb, -⟩ := (ha.keys h).mp hh
  rw [hnil] at hb
  cases hb

theorem Inv.forget (ha : Inv a) (hhndl : ∀ i, a'.bufferHandle i = none)
    (hhandle : ∀ i, a'.grallocHandle i = none) (hdequeued : a'.dequeued = a.dequeued)
    (hframes : a'.mFramesWithCameraAdapterMap = a.mFramesWithCameraAdapterMap) : Inv a' where
  keys h := by rw [hframes, hdequeued]; exact ha.keys h
  apart := hdequeued ▸ ha.apart
  nonzero := hdequeued ▸ ha.nonzero
  filed b _ i hi := by rw [hhndl] at hi; cases hi
  injective i j h hi := by rw [hhandle] at hi; cases hi

theorem Inv.display (ha : Inv a) (window enabled paused : Bool) (state : DisplayState)
    (x y : UInt32) : Inv { a with
      mANativeWindow := window
      mDisplayState := state
      mDisplayEnabled := enabled
      mPaused := paused
      mXOff := x
      mYOff := y } :=
  ⟨ha.keys, ha.apart, ha.nonzero, ha.filed, ha.injective⟩

theorem Inv.abandon (ha : Inv a) (err : Answer) : Inv (a.abandon err) := by
  rw [Adapter.abandon]
  split
  · exact ha.display false a.mDisplayEnabled a.mPaused a.mDisplayState a.mXOff a.mYOff
  · exact ha

theorem abandon_dequeued (a : Adapter) (err : Answer) :
    (a.abandon err).dequeued = a.dequeued := by
  rw [Adapter.abandon]
  split <;> rfl

/-! ## Giving a buffer back -/

/-- A buffer that the window has again. -/
def Adapter.gone (a : Adapter) (b : Buffer) : Adapter := { a with
  mFramesWithCameraAdapterMap := a.mFramesWithCameraAdapterMap.remove b.handle
  dequeued := a.dequeued.filter fun c => c.hndl ≠ b.hndl }

theorem giveBack_ok (hwindow : a.mANativeWindow = true) (hb : b ∈ a.dequeued) :
    a.giveBack b.hndl 0 =
      some { a with dequeued := a.dequeued.filter fun c => c.hndl ≠ b.hndl } := by
  rw [giveBack, if_pos ⟨hwindow, b, hb, rfl⟩, if_pos rfl]

theorem giveBack_fails (hwindow : a.mANativeWindow = true) (hb : b ∈ a.dequeued) {err : Answer}
    (herr : err ≠ 0) : a.giveBack b.hndl err = some a := by
  rw [giveBack, if_pos ⟨hwindow, b, hb, rfl⟩, if_neg herr]

theorem mem_gone (ha : Inv a) (hb : b ∈ a.dequeued) :
    b' ∈ (a.gone b).dequeued ↔ b' ∈ a.dequeued ∧ b' ≠ b := by
  simp only [Adapter.gone, List.mem_filter, decide_eq_true_eq]
  refine and_congr_right fun hb' => not_congr ⟨ha.eq_of_hndl hb' hb, fun h => h ▸ rfl⟩

theorem Inv.gone (ha : Inv a) (hb : b ∈ a.dequeued) : Inv (a.gone b) where
  keys h := by
    simp only [mem_gone ha hb]
    rw [Adapter.gone, mem_keys_remove, ha.keys]
    constructor
    · rintro ⟨⟨b', hb', rfl⟩, hne⟩
      exact ⟨b', ⟨hb', fun heq => hne (heq ▸ rfl)⟩, rfl⟩
    · rintro ⟨b', ⟨hb', hne⟩, rfl⟩
      exact ⟨⟨b', hb', rfl⟩, fun heq => hne (ha.eq_of_handle hb' hb heq)⟩
  apart := ha.apart.filter _
  nonzero b' hb' := ha.nonzero b' ((mem_gone ha hb).mp hb').1
  filed b' hb' i hi := by
    obtain ⟨hb', hne⟩ := (mem_gone ha hb).mp hb'
    obtain ⟨hhandle, hvalue⟩ := ha.filed b' hb' i hi
    refine ⟨hhandle, ?_⟩
    rw [Adapter.gone, valueFor_remove_ne _ fun heq =>
      hne (ha.eq_of_handle hb' hb heq), hvalue]
  injective := ha.injective

theorem firstFrom_eq_some {p : Nat → Bool} {n s i : Nat} (h : firstFrom p n s = some i) :
    s ≤ i ∧ i < s + n ∧ p i = true ∧ ∀ j, s ≤ j → j < i → p j = false := by
  induction n generalizing s with
  | zero => cases h
  | succ n ih =>
    rw [firstFrom] at h
    split at h
    · next hp =>
      obtain rfl := Option.some.inj h
      exact ⟨Nat.le_refl s, by omega, hp, fun j hj hjs => by omega⟩
    · next hp =>
      obtain ⟨hle, hlt, hpi, hbefore⟩ := ih h
      refine ⟨by omega, by omega, hpi, fun j hj hji => ?_⟩
      rcases Nat.eq_or_lt_of_le hj with rfl | hj
      · exact Bool.eq_false_iff.mpr hp
      · exact hbefore j hj hji

theorem cancelLoop_ok {cancel : Nat → Answer} {n s : Nat} (ha : Inv a)
    (hwindow : a.mANativeWindow = true) (hb : b ∈ a.dequeued)
    (hhndl : a.bufferHandle s = some b.hndl) (hzero : cancel s = 0) :
    cancelLoop cancel (n + 1) s a =
      cancelLoop cancel n (s + 1) (a.gone b) := by
  have hhandle : grallocHandle
      { a with dequeued := a.dequeued.filter fun c => c.hndl ≠ b.hndl } s = some b.handle :=
    (ha.filed b hb s hhndl).1
  simp only [cancelLoop, hhndl, bind_eq_bind, bind_some, hzero,
    giveBack_ok hwindow hb, ne_eq, not_true_eq_false, if_false]
  rw [hhandle]
  rfl

theorem cancelLoop_fails {cancel : Nat → Answer} {n s : Nat}
    (hwindow : a.mANativeWindow = true) (hb : b ∈ a.dequeued)
    (hhndl : a.bufferHandle s = some b.hndl) (herr : cancel s ≠ 0) :
    cancelLoop cancel (n + 1) s a = some (some s, a) := by
  simp only [cancelLoop, hhndl, bind_eq_bind, bind_some,
    giveBack_fails hwindow hb herr, if_pos herr]

theorem cancelLoop_spec (cancel : Nat → Answer) (n s : Nat) (ha : Inv a)
    (hwindow : a.mANativeWindow = true)
    (hout : ∀ j, s ≤ j → j < s + n → ∃ b ∈ a.dequeued, a.bufferHandle j = some b.hndl) :
    ∃ frames out, cancelLoop cancel n s a =
        some (firstFrom (fun i => cancel i ≠ 0) n s,
          { a with mFramesWithCameraAdapterMap := frames, dequeued := out }) ∧
      Inv { a with mFramesWithCameraAdapterMap := frames, dequeued := out } ∧
      ∀ b, b ∈ out ↔ b ∈ a.dequeued ∧
        ∀ j, s ≤ j → j < (firstFrom (fun i => cancel i ≠ 0) n s).getD (s + n) →
          a.bufferHandle j ≠ some b.hndl := by
  induction n generalizing s a with
  | zero =>
    refine ⟨_, _, rfl, ha, fun b => ⟨fun hb => ⟨hb, fun j hj hjs => ?_⟩, And.left⟩⟩
    exact absurd hjs (by simp [firstFrom]; omega)
  | succ n ih =>
    obtain ⟨b, hb, hhndl⟩ := hout s (Nat.le_refl s) (by omega)
    obtain ⟨hhandle, -⟩ := ha.filed b hb s hhndl
    by_cases hzero : cancel s = 0
    · have hfirst : firstFrom (fun i => cancel i ≠ 0) (n + 1) s =
          firstFrom (fun i => cancel i ≠ 0) n (s + 1) := by simp [firstFrom, hzero]
      obtain ⟨frames, out, hloop, hinv, hmem⟩ := ih (s := s + 1) (ha.gone hb) hwindow (by
        intro j hsj hj
        obtain ⟨c, hc, hcj⟩ := hout j (by omega) (by omega)
        refine ⟨c, (mem_gone ha hb).mpr ⟨hc, ?_⟩, hcj⟩
        rintro rfl
        have hjs := ha.injective s j _ hhandle (ha.filed c hc j hcj).1
        omega)
      refine ⟨frames, out, ?_, hinv, fun c => ?_⟩
      · rw [cancelLoop_ok ha hwindow hb hhndl hzero, hfirst, hloop]
        rfl
      · rw [hmem, mem_gone ha hb, hfirst, and_assoc, Nat.add_right_comm s 1 n]
        refine and_congr_right fun hc => ⟨fun h j hj hje => ?_, fun h => ⟨?_, fun j hj => ?_⟩⟩
        · rcases Nat.eq_or_lt_of_le hj with rfl | hj
          · rw [hhndl]
            exact fun heq => h.1 (ha.eq_of_hndl hc hb (Option.some.inj heq).symm)
          · exact h.2 j hj hje
        · rintro rfl
          refine h s (Nat.le_refl s) ?_ hhndl
          cases hf : firstFrom (fun i => cancel i ≠ 0) n (s + 1) with
          | none => rw [getD_none]; omega
          | some i => exact (firstFrom_eq_some hf).1
        · exact h j (by omega)
    · have hfirst : firstFrom (fun i => cancel i ≠ 0) (n + 1) s = some s := by
        simp [firstFrom, hzero]
      refine ⟨a.mFramesWithCameraAdapterMap, a.dequeued, ?_, ha, fun c => ?_⟩
      · rw [cancelLoop_fails hwindow hb hhndl hzero, hfirst]
      · rw [hfirst]
        refine ⟨fun hc => ⟨hc, fun j hj hjs => ?_⟩, And.left⟩
        exact absurd hj (Nat.not_le.mpr hjs)

/-! ## Returning the buffers -/

theorem bufferHandle_lt {i : Nat} {hndl : UInt32} (h : a.bufferHandle i = some hndl) :
    i < a.mBufferCount := by
  by_contra hge
  rw [bufferHandle, if_neg hge] at h
  cases h

variable {free : Nat → Answer}

theorem returnLoop_spec {es : List (Int32 × Int)} {k : Nat} (hwindow : a.mANativeWindow = true)
    (hfree : ∀ k, free k = 0) (happart : a.dequeued.Pairwise Apart)
    (hnodup : (es.map Prod.fst).Nodup)
    (hes : ∀ e ∈ es, ∃ b ∈ a.dequeued, b.handle = e.1 ∧ ∃ i : Nat, e.2 = (i : Int) ∧
      a.bufferHandle i = some b.hndl ∧ a.grallocHandle i = some b.handle)
    :
    ∃ out, returnLoop free (es.map Prod.snd) k a =
        some (true, { a with dequeued := out }) ∧
      ∀ b, b ∈ out ↔ b ∈ a.dequeued ∧ b.handle ∉ es.map Prod.fst := by
  induction es generalizing a k with
  | nil => exact ⟨a.dequeued, rfl, fun b => by simp⟩
  | cons e es ih =>
    obtain ⟨⟨b, hb, hbe, i, hi, hhndl, hhandle⟩, hrest⟩ := List.forall_mem_cons.mp hes
    obtain ⟨hnot, hnodup⟩ := List.nodup_cons.mp hnodup
    have hlt := bufferHandle_lt hhndl
    have hbounds : ¬ (e.2 < 0 ∨ (a.mBufferCount : Int) ≤ e.2) := by omega
    have hsame : ∀ c ∈ a.dequeued, c.hndl = b.hndl ↔ c.handle = b.handle := by
      intro c hc
      by_cases hcb : c = b
      · simp [hcb]
      · have h := happart.forall hc hb hcb
        exact iff_of_false h.1 h.2
    obtain ⟨out, hloop, hmem⟩ := ih (k := k + 1)
      (a := { a with dequeued := a.dequeued.filter fun c => c.hndl ≠ b.hndl }) hwindow
      (happart.filter _) hnodup (by
        intro e' he'
        obtain ⟨c, hc, hce, hfiled⟩ := hrest e' he'
        refine ⟨c, List.mem_filter.mpr ⟨hc, decide_eq_true ?_⟩, hce, hfiled⟩
        intro heq
        refine hnot (List.mem_map.mpr ⟨e', he', ?_⟩)
        rw [← hce, ← hbe]
        exact (hsame c hc).mp heq)
    refine ⟨out, ?_, fun c => ?_⟩
    · rw [List.map_cons, returnLoop, if_neg hbounds, hi, Int.toNat_natCast]
      simp only [hhandle, hhndl, bind_eq_bind, bind_some, hfree k,
        giveBack_ok hwindow hb, ne_eq, not_true_eq_false, if_false]
      exact hloop
    · rw [hmem, List.mem_filter, decide_eq_true_eq, List.map_cons, List.mem_cons, not_or,
        and_assoc, ← hbe]
      exact and_congr_right fun hc => and_congr_left' (not_congr (hsame c hc))

theorem Inv.entry (ha : Inv a) (hfiled : Filed a) {e : Int32 × Int}
    (he : e ∈ a.mFramesWithCameraAdapterMap.entries) :
    ∃ b ∈ a.dequeued, b.handle = e.1 ∧ ∃ i : Nat, e.2 = (i : Int) ∧
      a.bufferHandle i = some b.hndl ∧ a.grallocHandle i = some b.handle := by
  obtain ⟨b, hb, hbe⟩ := (ha.keys e.1).mp (List.mem_map_of_mem he)
  obtain ⟨i, hi⟩ := hfiled b hb
  obtain ⟨hhandle, hvalue⟩ := ha.filed b hb i hi
  refine ⟨b, hb, hbe, i, ?_, hi, hhandle⟩
  rw [hbe, valueFor_of_mem he] at hvalue
  exact Option.some.inj hvalue

theorem Adapter.no_entries (ha : Inv a) (hnil : a.dequeued = []) :
    a.mFramesWithCameraAdapterMap.entries = [] :=
  List.map_eq_nil_iff.mp (ha.keys_eq_nil hnil)

theorem returnBuffers_empty (ha : Inv a) (hnil : a.dequeued = []) (free : Nat → Answer) :
    a.returnBuffersToWindow free = some { a with mFramesWithCameraAdapterMap := .empty } := by
  rw [returnBuffersToWindow, no_entries ha hnil]
  split <;> rfl

theorem returnBuffers_all (ha : Inv a) (hwindow : a.mANativeWindow = true) (hfiled : Filed a)
    (hfree : ∀ k, free k = 0) :
    a.returnBuffersToWindow free =
      some { a with mFramesWithCameraAdapterMap := .empty, dequeued := [] } := by
  obtain ⟨out, hloop, hmem⟩ := returnLoop_spec (k := 0) hwindow hfree ha.apart
    a.mFramesWithCameraAdapterMap.nodup_keys fun e he => ha.entry hfiled he
  have hout : out = [] := by
    refine List.eq_nil_iff_forall_not_mem.mpr fun b hb => ?_
    obtain ⟨hb, hnot⟩ := (hmem b).mp hb
    exact hnot ((ha.keys b.handle).mpr ⟨b, hb, rfl⟩)
  rw [returnBuffersToWindow, if_pos hwindow, hloop, hout]
  rfl

theorem returnBuffers_none (ha : Inv a) (hwindow : a.mANativeWindow = true) (hfiled : Filed a)
    (hsome : a.dequeued ≠ []) (hfree : free 0 ≠ 0) :
    a.returnBuffersToWindow free = some (a.abandon (free 0)) := by
  cases hes : a.mFramesWithCameraAdapterMap.entries with
  | nil =>
    obtain ⟨b, hb⟩ := List.exists_mem_of_ne_nil _ hsome
    have hkey := (ha.keys b.handle).mpr ⟨b, hb, rfl⟩
    rw [KeyedVector.keys, hes] at hkey
    cases hkey
  | cons e es =>
    obtain ⟨b, hb, -, i, hi, hhndl, hhandle⟩ := ha.entry hfiled (hes ▸ List.mem_cons_self)
    have hbounds : ¬ (e.2 < 0 ∨ (a.mBufferCount : Int) ≤ e.2) := by
      have hlt := bufferHandle_lt hhndl
      omega
    rw [returnBuffersToWindow, if_pos hwindow, hes, List.map_cons, returnLoop,
      if_neg hbounds, hi, Int.toNat_natCast]
    simp only [hhandle, hhndl, bind_eq_bind, bind_some,
      giveBack_fails hwindow hb hfree, if_pos hfree]
    rfl

theorem Inv.returnBuffers (ha : Inv a) (free : Nat → Answer)
    (h : a.dequeued = [] ∨ Returns a free) :
    ∃ a', a.returnBuffersToWindow free = some a' ∧ Inv a' := by
  by_cases hnil : a.dequeued = []
  · exact ⟨_, returnBuffers_empty ha hnil free, .of_empty hnil rfl ha.injective⟩
  · obtain ⟨hwindow, hfiled, hall | hfirst⟩ := h.resolve_left hnil
    · exact ⟨_, returnBuffers_all ha hwindow hfiled hall, .of_empty rfl rfl ha.injective⟩
    · exact ⟨_, returnBuffers_none ha hwindow hfiled hnil hfirst, ha.abandon _⟩

theorem Inv.deleted (ha : Inv a) :
    Inv { a with mGrallocHandleMap := none, mBufferHandleMap := none } :=
  ha.forget (fun i => by simp [bufferHandle]) (fun i => by simp [grallocHandle])
    rfl rfl

theorem freeBuffer_eq {pass : Bool}
    (h : (if pass then a else
      { a with mGrallocHandleMap := none }).returnBuffersToWindow free = some a')
    :
    a.freeBuffer pass free =
      some { a' with mGrallocHandleMap := none, mBufferHandleMap := none } := by
  rw [Adapter.freeBuffer, h, map_some]

theorem Inv.freeBuffer (ha : Inv a) {pass : Bool} (h : a.dequeued = [] ∨ pass ∧ Returns a free) :
    ∃ a', a.freeBuffer pass free = some a' ∧ Inv a' := by
  cases pass with
  | true =>
    obtain ⟨a', hreturn, hinv⟩ := ha.returnBuffers free (h.imp_right And.right)
    exact ⟨_, freeBuffer_eq hreturn, hinv.deleted⟩
  | false =>
    have hnil := h.resolve_right (by simp)
    have hnull : Inv { a with mGrallocHandleMap := none } :=
      .of_empty hnil (ha.keys_eq_nil hnil) fun i j h hi => by simp [grallocHandle] at hi
    obtain ⟨a', hreturn, hinv⟩ := hnull.returnBuffers free (.inl hnil)
    exact ⟨_, freeBuffer_eq hreturn, hinv.deleted⟩

theorem freeBuffer_empties (ha : Inv a) (free : Nat → Answer)
    (h : a.dequeued = [] ∨ a.mANativeWindow = true ∧ Filed a ∧ ∀ k, free k = 0) :
    ∃ a', a.freeBuffer true free = some a' ∧ Inv a' ∧ a'.dequeued = [] := by
  rcases h with hnil | ⟨hwindow, hfiled, hfree⟩
  · have hinv : Inv { a with mFramesWithCameraAdapterMap := .empty } :=
      .of_empty hnil rfl ha.injective
    exact ⟨_, freeBuffer_eq (returnBuffers_empty ha hnil free), hinv.deleted, hnil⟩
  · have hinv : Inv { a with mFramesWithCameraAdapterMap := .empty, dequeued := [] } :=
      .of_empty rfl rfl ha.injective
    exact ⟨_, freeBuffer_eq (returnBuffers_all ha hwindow hfiled hfree), hinv.deleted, rfl⟩

/-! ## Allocation -/

theorem fail_spec {w : Answers} {i : Nat} (ha : Inv a) (hwindow : a.mANativeWindow = true)
    (hfiled : Filed a)
    (hout : ∀ j < i, ∃ b ∈ a.dequeued, a.bufferHandle j = some b.hndl)
    (h : (∀ b ∈ a.dequeued, ∃ j < i, a.bufferHandle j = some b.hndl) ∧ (∀ j < i, w.undo j = 0) ∨
      ∀ k, w.free k = 0) :
    ∃ a', a.fail w i = some (false, a') ∧ Inv a' ∧ a'.dequeued = [] := by
  obtain ⟨frames, out, hloop, hinv, hmem⟩ := cancelLoop_spec w.undo i 0
    ha hwindow fun j _ hj => hout j (by omega)
  have hfree : out = [] ∨ a.mANativeWindow = true ∧
      Filed { a with mFramesWithCameraAdapterMap := frames, dequeued := out } ∧
      ∀ k, w.free k = 0 := by
    rcases h with ⟨hbelow, hundo⟩ | hfree
    · left
      refine List.eq_nil_iff_forall_not_mem.mpr fun b hb => ?_
      obtain ⟨hb, hnot⟩ := (hmem b).mp hb
      obtain ⟨j, hj, hjb⟩ := hbelow b hb
      refine hnot j (Nat.zero_le j) ?_ hjb
      cases hfirst : firstFrom (fun i => w.undo i ≠ 0) i 0 with
      | none => rw [getD_none]; omega
      | some k =>
        obtain ⟨-, hk, hbad, -⟩ := firstFrom_eq_some hfirst
        exact absurd (hundo k (by omega)) (by simpa using hbad)
    · exact .inr ⟨hwindow, fun b hb => hfiled b ((hmem b).mp hb).1, hfree⟩
  obtain ⟨a', hback, hinv', hnil⟩ := freeBuffer_empties hinv w.free hfree
  refine ⟨a', ?_, hinv', hnil⟩
  simp only [fail, hloop, bind_eq_bind, bind_some]
  rw [hback]
  rfl

/-- What the window gives out in `allocateBuffer`. -/
structure Gives (dequeue : Nat → Except Answer Buffer) : Prop where
  nonzero : ∀ {i b}, dequeue i = .ok b → b.handle ≠ 0
  apart : ∀ {i j b b'}, i ≠ j → dequeue i = .ok b → dequeue j = .ok b' → Apart b b'

/-- After `i` of `n` buffers. -/
structure Stage (a : Adapter) (dequeue : Nat → Except Answer Buffer) (n i : Nat) : Prop where
  inv : Inv a
  window : a.mANativeWindow = true
  count : a.mBufferCount = n
  maps : ∃ hndls handles, a.mBufferHandleMap = some hndls ∧ a.mGrallocHandleMap = some handles ∧
    hndls.length = n ∧ handles.length = n
  unset : ∀ j, i ≤ j → a.bufferHandle j = none ∧ a.grallocHandle j = none
  stored : ∀ j < i, ∃ b, dequeue j = .ok b ∧ b ∈ a.dequeued ∧ a.bufferHandle j = some b.hndl
  origin : ∀ b ∈ a.dequeued, ∃ j < i, dequeue j = .ok b

variable {dequeue : Nat → Except Answer Buffer} {n i : Nat}

theorem getElem?_set_join {α : Type} {l : List (Option α)} (hi : i < l.length) (x : α) (j : Nat) :
    (l.set i (some x))[j]?.join = if j = i then some x else l[j]?.join := by
  rw [List.getElem?_set]
  by_cases hj : j = i
  · rw [if_pos hj.symm, if_pos hj, if_pos hi]
    rfl
  · rw [if_neg (Ne.symm hj), if_neg hj]

theorem Stage.store_handles (hs : Stage a dequeue n i) (hi : i < n) (b : Buffer) (j : Nat) :
    (a.store i b).bufferHandle j = (if j = i then some b.hndl else a.bufferHandle j) ∧
      (a.store i b).grallocHandle j = (if j = i then some b.handle else a.grallocHandle j) := by
  obtain ⟨hndls, handles, hhndls, hhandles, hlen, hlen'⟩ := hs.maps
  have hcount : (a.store i b).mBufferCount = n := hs.count
  constructor
  · rw [bufferHandle, bufferHandle, hcount, hs.count, Adapter.store, hhndls]
    simp only [map_some, bind_some, getElem?_set_join (hlen ▸ hi)]
    by_cases hj : j = i
    · rw [if_pos hj, if_pos hj, if_pos (hj ▸ hi)]
    · rw [if_neg hj, if_neg hj]
  · rw [grallocHandle, grallocHandle, hcount, hs.count, Adapter.store, hhandles]
    simp only [map_some, bind_some, getElem?_set_join (hlen' ▸ hi)]
    by_cases hj : j = i
    · rw [if_pos hj, if_pos hj, if_pos (hj ▸ hi)]
    · rw [if_neg hj, if_neg hj]

theorem Stage.store (hs : Stage a dequeue n i) (hg : Gives dequeue) (hi : i < n)
    (hb : dequeue i = .ok b) : Stage (a.store i b) dequeue n (i + 1) := by
  have hapart : ∀ c ∈ a.dequeued, Apart b c := by
    intro c hc
    obtain ⟨j, hj, hcj⟩ := hs.origin c hc
    exact hg.apart (Nat.ne_of_gt hj) hb hcj
  have hhndl := fun j => (hs.store_handles hi b j).1
  have hhandle := fun j => (hs.store_handles hi b j).2
  -- where something is stored, a buffer that is out is
  have hplace : ∀ j h, a.grallocHandle j = some h → j < i ∧ h ≠ b.handle := by
    intro j h hj
    have hlt : j < i := by
      by_contra hge
      rw [(hs.unset j (Nat.not_lt.mp hge)).2] at hj
      cases hj
    obtain ⟨c, -, hc, hcj⟩ := hs.stored j hlt
    rw [(hs.inv.filed c hc j hcj).1] at hj
    exact ⟨hlt, Option.some.inj hj ▸ (hapart c hc).2.symm⟩
  exact {
    window := hs.window
    count := hs.count
    maps := by
      obtain ⟨hndls, handles, hhndls, hhandles, hlen, hlen'⟩ := hs.maps
      exact ⟨_, _, by rw [Adapter.store, hhndls]; rfl, by rw [Adapter.store, hhandles]; rfl,
        by rw [List.length_set, hlen], by rw [List.length_set, hlen']⟩
    unset := by
      intro j hj
      rw [hhndl, hhandle, if_neg (by omega), if_neg (by omega)]
      exact hs.unset j (by omega)
    stored := by
      intro j hj
      by_cases hji : j = i
      · exact ⟨b, hji ▸ hb, List.mem_cons_self, by rw [hhndl, if_pos hji]⟩
      · obtain ⟨c, hcj, hc, hcc⟩ := hs.stored j (by omega)
        exact ⟨c, hcj, List.mem_cons_of_mem _ hc, by rw [hhndl, if_neg hji, hcc]⟩
    origin := by
      intro c hc
      rcases List.mem_cons.mp hc with rfl | hc
      · exact ⟨i, Nat.lt_succ_self i, hb⟩
      · obtain ⟨j, hj, hcj⟩ := hs.origin c hc
        exact ⟨j, by omega, hcj⟩
    inv := {
      keys := by
        intro h
        rw [Adapter.store, mem_keys_add, hs.inv.keys]
        simp only [List.mem_cons, exists_eq_or_imp, eq_comm (a := h)]
      apart := List.pairwise_cons.mpr ⟨hapart, hs.inv.apart⟩
      nonzero := List.forall_mem_cons.mpr ⟨hg.nonzero hb, hs.inv.nonzero⟩
      filed := by
        intro c hc j hj
        rw [hhndl] at hj
        rw [hhandle]
        rcases List.mem_cons.mp hc with rfl | hc
        · by_cases hji : j = i
          · rw [if_pos hji, hji]
            exact ⟨rfl, valueFor_add_self _ _ _⟩
          · rw [if_neg hji] at hj
            have hlt : j < i := by
              by_contra hge
              rw [(hs.unset j (Nat.not_lt.mp hge)).1] at hj
              cases hj
            obtain ⟨d, -, hd, hdj⟩ := hs.stored j hlt
            exact absurd (Option.some.inj (hj.symm.trans hdj)) (hapart d hd).1
        · by_cases hji : j = i
          · rw [if_pos hji] at hj
            exact absurd (Option.some.inj hj) (hapart c hc).1
          · rw [if_neg hji] at hj ⊢
            obtain ⟨hcj, hvalue⟩ := hs.inv.filed c hc j hj
            refine ⟨hcj, ?_⟩
            rw [Adapter.store, valueFor_add_ne _ (hapart c hc).2.symm, hvalue]
      injective := by
        intro j k h hj hk
        rw [hhandle] at hj hk
        by_cases hji : j = i
        · by_cases hki : k = i
          · rw [hji, hki]
          · rw [if_pos hji] at hj
            rw [if_neg hki] at hk
            exact absurd (Option.some.inj hj).symm (hplace k h hk).2
        · rw [if_neg hji] at hj
          by_cases hki : k = i
          · rw [if_pos hki] at hk
            exact absurd (Option.some.inj hk).symm (hplace j h hj).2
          · rw [if_neg hki] at hk
            exact hs.inv.injective j k h hj hk } }

theorem Stage.filed (hs : Stage a dequeue n i) : Filed a := by
  intro b hb
  obtain ⟨j, hj, hbj⟩ := hs.origin b hb
  obtain ⟨c, hcj, -, hc⟩ := hs.stored j hj
  cases hbj.symm.trans hcj
  exact ⟨j, hc⟩

theorem Stage.filed_below (hs : Stage a dequeue n i) (hb : b ∈ a.dequeued) :
    ∃ j < i, a.bufferHandle j = some b.hndl := by
  obtain ⟨j, hj, hbj⟩ := hs.origin b hb
  obtain ⟨c, hcj, -, hc⟩ := hs.stored j hj
  cases hbj.symm.trans hcj
  exact ⟨j, hj, hc⟩

theorem dequeueLoop_spec {m : Nat} (hs : Stage a dequeue n i) (hg : Gives dequeue)
    (hm : i + m = n) :
    match firstFrom (fun i => Fails (dequeue i)) m i with
    | none => ∃ a', dequeueLoop dequeue m i a = (none, a') ∧ Stage a' dequeue n n
    | some j => ∃ a' err, dequeueLoop dequeue m i a = (some j, a'.abandon err) ∧
        dequeue j = .error err ∧ Stage a' dequeue n j := by
  induction m generalizing a i with
  | zero =>
    obtain rfl : i = n := hm
    exact ⟨a, rfl, hs⟩
  | succ m ih =>
    rw [firstFrom, dequeueLoop]
    cases hb : dequeue i with
    | error err => exact ⟨a, err, rfl, hb, hs⟩
    | ok b => exact ih (hs.store hg (by omega) hb) (by omega)

theorem replicate_join {α : Type} (n i : Nat) :
    (List.replicate n (none : Option α))[i]?.join = none := by
  rw [List.getElem?_replicate]
  split <;> rfl

theorem blank_handles (a : Adapter) (numBufs i : Nat) :
    (a.blank numBufs).bufferHandle i = none ∧ (a.blank numBufs).grallocHandle i = none := by
  simp [Adapter.blank, bufferHandle, grallocHandle, replicate_join]

theorem Inv.blank (ha : Inv a) (numBufs : Nat) : Inv (a.blank numBufs) :=
  ha.forget (fun i => (blank_handles a numBufs i).1) (fun i => (blank_handles a numBufs i).2)
    rfl rfl

theorem Stage.start (ha : Inv a) (hwindow : a.mANativeWindow = true) (hnil : a.dequeued = [])
    (dequeue : Nat → Except Answer Buffer) (n : Nat) :
    Stage { a.blank n with mBufferCount := n } dequeue n 0 where
  inv := .of_empty hnil (ha.keys_eq_nil hnil) fun i j h hi => by
    simp [Adapter.blank, grallocHandle, replicate_join] at hi
  window := hwindow
  count := rfl
  maps := ⟨_, _, rfl, rfl, List.length_replicate, List.length_replicate⟩
  unset j _ := by simp [Adapter.blank, bufferHandle, grallocHandle, replicate_join]
  stored j hj := absurd hj (Nat.not_lt_zero j)
  origin b hb := absurd (show b ∈ a.dequeued from hb) (by simp [hnil])

theorem abandon_of_ne {err : Answer} (h : err ≠ enodev) : a.abandon err = a := if_neg h

theorem getBuffers_spec {w : Answers} (hs : Stage a w.dequeue n 0) (hg : Gives w.dequeue)
    (hcopes : Copes n w) : ∃ ok a', a.getBuffers n w = some (ok, a') ∧ Inv a' ∧
      (ok = false → a'.dequeued = []) := by
  rw [getBuffers]
  have hloop := dequeueLoop_spec (m := n) hs hg (Nat.zero_add n)
  rw [Copes] at hcopes
  cases hfirst : firstFrom (fun i => Fails (w.dequeue i)) n 0 with
  | some i =>
    rw [hfirst] at hloop hcopes
    obtain ⟨a₁, err, hloop, herr, hs₁⟩ := hloop
    rw [hloop]
    rcases hcopes with rfl | ⟨hdev, hundo⟩
    · -- nothing was dequeued
      have hnone : (a₁.abandon err).dequeued = [] := by
        rw [abandon_dequeued]
        refine List.eq_nil_iff_forall_not_mem.mpr fun b hb => ?_
        obtain ⟨j, hj, -⟩ := hs₁.origin b hb
        omega
      obtain ⟨a', hfree, hinv, hout⟩ := freeBuffer_empties (hs₁.inv.abandon err)
        w.free (.inl hnone)
      refine ⟨false, a', ?_, hinv, fun _ => hout⟩
      simp only [fail, cancelLoop, bind_eq_bind, bind_some]
      rw [hfree]
      rfl
    · have hne : err ≠ enodev := fun h => hdev (h ▸ herr)
      rw [abandon_of_ne hne]
      obtain ⟨a', hfail, hinv, hout⟩ := fail_spec (w := w) (i := i) hs₁.inv hs₁.window hs₁.filed
        (fun j hj => by
          obtain ⟨b, -, hb, hbj⟩ := hs₁.stored j hj
          exact ⟨b, hb, hbj⟩)
        (hundo.imp_left fun h => ⟨fun b hb => hs₁.filed_below hb, h⟩)
      exact ⟨false, a', hfail, hinv, fun _ => hout⟩
  | none =>
    rw [hfirst] at hloop hcopes
    obtain ⟨a₁, hloop, hs₁⟩ := hloop
    rw [hloop]
    have hspare : w.spare n ≤ n := by
      rw [Answers.spare]
      split <;> omega
    obtain ⟨frames, out, hcancel, hinv, hmem⟩ := cancelLoop_spec w.cancel
      (w.spare n) (n - w.spare n) hs₁.inv hs₁.window fun j _ hj => by
        obtain ⟨b, -, hb, hbj⟩ := hs₁.stored j (by omega)
        exact ⟨b, hb, hbj⟩
    cases hfail : firstFrom (fun i => w.cancel i ≠ 0) (w.spare n) (n - w.spare n) with
    | none =>
      rw [hfail] at hcancel
      simp only [hcancel]
      exact ⟨true, _, rfl, hinv, fun h => absurd h (by simp)⟩
    | some i =>
      rw [hfail] at hcancel hcopes hmem
      obtain ⟨hi, hdev, hfree⟩ := hcopes
      simp only [hcancel]
      rw [abandon_of_ne hdev]
      -- nothing was cancelled
      have hall : ∀ b, b ∈ out ↔ b ∈ a₁.dequeued := by
        intro b
        rw [hmem, Option.getD_some]
        exact and_iff_left fun j hj hji => absurd hj (by omega)
      obtain ⟨a', hfail, hinv', hout⟩ := fail_spec (w := w) (i := i) hinv hs₁.window
        (fun b hb => hs₁.filed b ((hall b).mp hb))
        (fun j hj => by
          obtain ⟨b, -, hb, hbj⟩ := hs₁.stored j (by omega)
          exact ⟨b, (hall b).mpr hb, hbj⟩)
        (.inr hfree)
      exact ⟨false, a', hfail, hinv', fun _ => hout⟩

theorem allocateBuffer_spec {w : Answers} (ha : Inv a) (hw : Window a (.allocateBuffer n w))
    (hlucky : Lucky a (.allocateBuffer n w)) :
    ∃ ok a', a.allocateBuffer n w = some (ok, a') ∧ Inv a' ∧
      (ok = false → a'.dequeued = a.dequeued) := by
  obtain ⟨hcount, hnonzero, hapart⟩ := hw
  have hblank := ha.blank n
  by_cases hwindow : a.mANativeWindow = true
  · have hready := not_not.mpr hwindow
    by_cases husage : w.usage = 0
    · by_cases hzero : w.count = 0
      · have hnil : a.dequeued = [] := by
          by_contra hne
          exact hcount hne hzero
        have hs := Stage.start ha hwindow hnil w.dequeue n
        by_cases hgeometry : w.geometry = 0
        · obtain ⟨ok, a', hget, hinv, hout⟩ := getBuffers_spec (w := w) hs
            ⟨fun h => hnonzero _ _ h, fun h => hapart _ _ _ _ h⟩
            (hlucky hwindow husage hzero hgeometry)
          refine ⟨ok, a', ?_, hinv, fun hfail => (hout hfail).trans hnil.symm⟩
          exact (if_neg hready).trans ((if_neg (not_not.mpr husage)).trans
            ((if_neg (not_not.mpr hzero)).trans ((if_neg (not_not.mpr hgeometry)).trans hget)))
        · refine ⟨false, _, ?_, hs.inv.abandon w.geometry, fun _ => abandon_dequeued _ _⟩
          exact (if_neg hready).trans ((if_neg (not_not.mpr husage)).trans
            ((if_neg (not_not.mpr hzero)).trans (if_pos hgeometry)))
      · refine ⟨false, _, ?_, hblank.abandon w.count, fun _ => abandon_dequeued _ _⟩
        exact (if_neg hready).trans ((if_neg (not_not.mpr husage)).trans (if_pos hzero))
    · refine ⟨false, _, ?_, hblank.abandon w.usage, fun _ => abandon_dequeued _ _⟩
      exact (if_neg hready).trans (if_pos husage)
  · exact ⟨false, _, if_pos hwindow, hblank, fun _ => rfl⟩

/-! ## The display -/

theorem findIdx_range {n i : Nat} {p : Nat → Bool} (hi : i < n) (hp : p i = true)
    (huniq : ∀ j, p j = true → j = i) : (List.range n).findIdx p = i := by
  rw [List.findIdx_eq (by rwa [List.length_range])]
  simp only [List.getElem_range]
  refine ⟨hp, fun j hj => Bool.eq_false_iff.mpr fun hpj => ?_⟩
  exact absurd (huniq j hpj) (Nat.ne_of_lt hj)

theorem grallocHandle_lt {i : Nat} {handle : Int32} (h : a.grallocHandle i = some handle) :
    i < a.mBufferCount := by
  by_contra hge
  rw [grallocHandle, if_neg hge] at h
  cases h

theorem prepare_spec (hwindow : a.mANativeWindow = true) (frame : DisplayFrame) :
    ∃ x y, a.prepare frame = some { a with mXOff := x, mYOff := y } := by
  rw [prepare, setCrop]
  by_cases hshows : a.Shows frame
  · rw [if_pos hshows]
    by_cases hoff : a.mXOff ≠ frame.mOffset % 4096 ∨ a.mYOff ≠ frame.mOffset / 4096
    · exact ⟨_, _, (if_pos hoff).trans (if_pos hwindow)⟩
    · exact ⟨a.mXOff, a.mYOff, if_neg hoff⟩
  · exact ⟨a.mXOff, a.mYOff, if_neg hshows⟩

theorem postFrame_spec {frame : DisplayFrame} (ha : Inv a) (hwindow : a.mANativeWindow = true)
    (hfiled : Filed a) (hb : b ∈ a.dequeued) (hframe : b.handle = frame.mBuffer)
    (hmap : a.mGrallocHandleMap ≠ none) :
    ∃ a', a.PostFrame frame 0 = some a' ∧ Inv a' := by
  obtain ⟨i, hi⟩ := hfiled b hb
  obtain ⟨hhandle, -⟩ := ha.filed b hb i hi
  have hnull : ¬ (a.mGrallocHandleMap = none ∨ frame.mBuffer = 0) :=
    not_or.mpr ⟨hmap, hframe ▸ ha.nonzero b hb⟩
  have hfind : a.findBuffer frame.mBuffer = i := by
    refine findIdx_range (grallocHandle_lt hhandle) (by simp [hhandle, hframe]) fun j hj => ?_
    rw [← hframe] at hj
    exact ha.injective j i b.handle (of_decide_eq_true hj) hhandle
  obtain ⟨x, y, hcrop⟩ := prepare_spec hwindow frame
  have hback := giveBack_ok (a := { a with mXOff := x, mYOff := y }) hwindow hb
  refine ⟨_, ?_, (ha.gone hb).display a.mANativeWindow a.mDisplayEnabled a.mPaused
    a.mDisplayState x y⟩
  rw [Adapter.PostFrame, if_neg hnull, hfind, hcrop]
  simp only [bind_eq_bind, bind_some]
  rw [show grallocHandle { a with mXOff := x, mYOff := y } i = some b.handle from hhandle,
    show bufferHandle { a with mXOff := x, mYOff := y } i = some b.hndl from hi]
  simp only [bind_some]
  rw [hback, bind_some, ← hframe]
  rfl

theorem handleFrameReturn_spec {i : Nat} (ha : Inv a) (hwindow : a.mANativeWindow = true)
    (hnonzero : b.handle ≠ 0) (hapart : ∀ c ∈ a.dequeued, Apart b c)
    (hsame : ∀ i, a.bufferHandle i = some b.hndl → a.grallocHandle i = some b.handle)
    (hi : a.bufferHandle i = some b.hndl) :
    ∃ a', a.handleFrameReturn (.ok b) 0 true = some a' ∧ Inv a' := by
  have hhandle := hsame i hi
  have hfind : findHandle { a with dequeued := b :: a.dequeued } b.hndl = i := by
    refine findIdx_range (bufferHandle_lt hi) (decide_eq_true hi) fun j hj => ?_
    exact ha.injective j i b.handle (hsame j (of_decide_eq_true hj)) hhandle
  refine ⟨{ a with
    dequeued := b :: a.dequeued
    mFramesWithCameraAdapterMap := a.mFramesWithCameraAdapterMap.add b.handle i }, ?_, ?_⟩
  · rw [Adapter.handleFrameReturn, if_neg (not_not.mpr hwindow)]
    simp only [ne_eq, not_true_eq_false, if_false, bind_eq_bind, hfind]
    rw [show grallocHandle { a with dequeued := b :: a.dequeued } i = some b.handle from
      hhandle]
    rfl
  · exact {
      keys := by
        intro h
        rw [mem_keys_add, ha.keys]
        simp only [List.mem_cons, exists_eq_or_imp, eq_comm (a := h)]
      apart := List.pairwise_cons.mpr ⟨hapart, ha.apart⟩
      nonzero := List.forall_mem_cons.mpr ⟨hnonzero, ha.nonzero⟩
      filed := by
        intro c hc j hj
        rcases List.mem_cons.mp hc with rfl | hc
        · refine ⟨hsame j hj, ?_⟩
          rw [ha.injective j i c.handle (hsame j hj) hhandle]
          exact valueFor_add_self _ _ _
        · obtain ⟨hcj, hvalue⟩ := ha.filed c hc j hj
          exact ⟨hcj, by rw [valueFor_add_ne _ (hapart c hc).2.symm, hvalue]⟩
      injective := ha.injective }

theorem disableDisplay_spec {cancelBuffer : Bool} (ha : Inv a)
    (h : a.mDisplayEnabled → a.dequeued = [] ∨ cancelBuffer ∧ Returns a free) :
    ∃ a', a.disableDisplay cancelBuffer free = some a' ∧ Inv a' := by
  rw [Adapter.disableDisplay]
  split
  · exact ⟨a, rfl, ha⟩
  next henabled =>
    have hstop := ha.display a.mANativeWindow false a.mPaused .stopped 0xFFFFFFFF 0xFFFFFFFF
    have hout := h (not_not.mp henabled)
    split
    · exact hstop.returnBuffers _ (hout.imp_right And.right)
    next hkeep =>
      have hnil := hout.resolve_right fun h => hkeep h.1
      exact ⟨_, rfl, .of_empty hnil rfl ha.injective⟩

theorem step_spec {c : Call} (ha : Inv a) (hw : Window a c) (hlucky : Lucky a c) :
    ∃ a', step a c = some a' ∧ Inv a' := by
  cases c with
  | allocateBuffer numBufs w =>
    obtain ⟨ok, a', halloc, hinv, -⟩ := allocateBuffer_spec ha hw hlucky
    exact ⟨a', by rw [step, halloc, map_some], hinv⟩
  | freeBuffer pass free => exact ha.freeBuffer hlucky
  | postFrame frame err =>
    by_cases hnull : a.mGrallocHandleMap = none ∨ frame.mBuffer = 0
    · exact ⟨a, if_pos hnull, ha⟩
    · obtain ⟨hmap, hzero⟩ := not_or.mp hnull
      obtain ⟨hwindow, hfiled, ⟨b, hb, hframe⟩, rfl⟩ :=
        (hlucky.resolve_left hmap).resolve_left hzero
      exact postFrame_spec ha hwindow hfiled hb hframe hmap
  | handleFrameReturn dequeue locked mapped =>
    by_cases hwindow : a.mANativeWindow = true
    · cases dequeue with
      | error err => exact ⟨_, if_neg (not_not.mpr hwindow), ha.abandon err⟩
      | ok b =>
        obtain ⟨rfl, rfl, i, hi⟩ := hlucky hwindow
        exact handleFrameReturn_spec ha hwindow hw.1 hw.2.1 hw.2.2 hi
    · exact ⟨a, if_pos hwindow, ha⟩
  | enableDisplay =>
    refine ⟨_, rfl, ?_⟩
    rw [Adapter.enableDisplay]
    split
    · exact ha
    · exact ha.display a.mANativeWindow true a.mPaused .started a.mXOff a.mYOff
  | disableDisplay cancelBuffer free => exact disableDisplay_spec ha hlucky
  | pauseDisplay pause =>
    exact ⟨_, rfl, ha.display a.mANativeWindow a.mDisplayEnabled pause a.mDisplayState a.mXOff
      a.mYOff⟩

/-- In a run whose calls meet the condition, every call returns, the map lists the buffers that the
window has given out, and a failing `allocateBuffer` keeps none. -/
theorem buffers_kept (calls : List Call) (hwindow : Guarded step Window {} calls)
    (hlucky : Guarded step Lucky {} calls) : Guarded step Keeps {} calls := by
  refine Guarded.mono (J := Inv) (G := fun a c => Window a c ∧ Lucky a c) ?_ ?_
    (guarded_and.mpr ⟨hwindow, hlucky⟩) Inv.start
  · rintro a c ha ⟨hw, hl⟩
    obtain ⟨a', hstep, hinv⟩ := step_spec ha hw hl
    refine ⟨⟨a', hstep, hinv.sound⟩, ?_⟩
    cases c with
    | allocateBuffer numBufs w =>
      intro a'' hfail
      obtain ⟨ok, a₁, halloc, -, hout⟩ := allocateBuffer_spec ha hw hl
      cases halloc.symm.trans hfail
      exact hout rfl
    | _ => trivial
  · rintro a c a' ha ⟨hw, hl⟩ hstep
    obtain ⟨a'', hstep', hinv⟩ := step_spec ha hw hl
    exact Option.some.inj (hstep'.symm.trans hstep) ▸ hinv

def first : Buffer := ⟨0x100, 0x1000⟩

def second : Buffer := ⟨0x200, 0x2000⟩

/-- Two buffers, of which the window wants one back; `err` is the answer for the second. -/
def twoBuffers (err : Option Answer) : Answers where
  usage := 0
  count := 0
  geometry := 0
  undequeued := 1
  dequeue i := match i, err with
    | 0, _ => .ok first
    | 1, none => .ok second
    | 1, some err => .error err
    | _, _ => .error enodev
  cancel _ := 0
  undo _ := 0
  free _ := 0

theorem window_twoBuffers (err : Option Answer) :
    Window {} (.allocateBuffer 2 (twoBuffers err)) := by
  have hone : ∀ i b, (twoBuffers err).dequeue i = .ok b →
      i = 0 ∧ b = first ∨ i = 1 ∧ b = second := by
    intro i b h
    match i, err with
    | 0, _ => exact .inl ⟨rfl, (Except.ok.inj h).symm⟩
    | 1, none => exact .inr ⟨rfl, (Except.ok.inj h).symm⟩
    | 1, some _ => cases h
    | _ + 2, _ => cases h
  refine ⟨fun h => absurd rfl h, fun i b h => ?_, fun i j b b' hij h h' => ?_⟩
  · rcases hone i b h with ⟨-, rfl⟩ | ⟨-, rfl⟩ <;> decide
  · rcases hone i b h with ⟨rfl, rfl⟩ | ⟨rfl, rfl⟩ <;>
      rcases hone j b' h' with ⟨rfl, rfl⟩ | ⟨rfl, rfl⟩
    · exact absurd rfl hij
    · exact ⟨by decide, by decide⟩
    · exact ⟨by decide, by decide⟩
    · exact absurd rfl hij

def frameOf (handle : Int32) : DisplayFrame := ⟨handle, 0, false⟩

/-- After the allocation. -/
def allocated : Adapter where
  mBufferCount := 2
  mBufferHandleMap := some [some 0x100, some 0x200]
  mGrallocHandleMap := some [some 0x1000, some 0x2000]
  mFramesWithCameraAdapterMap := add .empty 0x1000 0
  dequeued := [first]

theorem step_allocated : step {} (.allocateBuffer 2 (twoBuffers none)) = some allocated := rfl

/-- After the first buffer was shown. -/
def shown : Adapter := { allocated with
  mDisplayState := .started
  mDisplayEnabled := true
  mFramesWithCameraAdapterMap := .empty
  mXOff := 0
  mYOff := 0
  dequeued := [] }

theorem filed_allocated : Filed allocated := by
  intro b hb
  obtain rfl := List.mem_singleton.mp hb
  exact ⟨0, rfl⟩

/-- A buffer that is allocated, shown, and given out again. -/
theorem buffers_kept_shown :
    Guarded step Keeps {} [.allocateBuffer 2 (twoBuffers none), .enableDisplay,
      .postFrame (frameOf 0x1000) 0, .handleFrameReturn (.ok second) 0 true] := by
  refine buffers_kept _ ?_ ?_
  · refine .cons (window_twoBuffers none) step_allocated (.cons trivial rfl (.cons trivial
      (show _ = some shown from rfl) (.cons ⟨by decide, ?_, ?_⟩ rfl trivial)))
    · exact fun b hb => absurd hb List.not_mem_nil
    · intro i hi
      match i with
      | 0 => exact absurd hi (by decide)
      | 1 => rfl
      | i + 2 => exact absurd (bufferHandle_lt hi) (by simp [shown, allocated])
  · refine .cons ?_ step_allocated (.cons trivial rfl (.cons ?_ (show _ = some shown from rfl)
      (.cons ?_ rfl trivial)))
    · intro _ _ _ _
      trivial
    · exact .inr (.inr ⟨rfl, filed_allocated, ⟨first, List.mem_singleton.mpr rfl, rfl⟩, rfl⟩)
    · exact fun _ => ⟨rfl, rfl, 1, rfl⟩

/-- The window is given up at the second buffer; a buffer is posted that is not in the maps; and
a buffer that the window refuses is not in the map of the camera any more. -/
theorem buffers_not_kept :
    let lost : List Call := [.allocateBuffer 2 (twoBuffers (some enodev))]
    let unknown : List Call := [.allocateBuffer 2 (twoBuffers none), .postFrame (frameOf 0x3000) 0]
    let refused : List Call := [.allocateBuffer 2 (twoBuffers none), .postFrame (frameOf 0x1000) 1]
    (Guarded step Window {} lost ∧ Guarded step Window {} unknown ∧
      Guarded step Window {} refused) ∧
    run step {} lost = none ∧ run step {} unknown = none ∧
    (∃ a, run step {} refused = some a ∧ a.dequeued = [first] ∧
      a.mFramesWithCameraAdapterMap.keys = []) ∧
    ¬ Guarded step Keeps {} lost ∧ ¬ Guarded step Keeps {} unknown ∧
    ¬ Guarded step Keeps {} refused := by
  refine ⟨⟨?_, ?_, ?_⟩, rfl, rfl, ⟨_, rfl, rfl, rfl⟩, ?_, ?_, ?_⟩
  · exact ⟨window_twoBuffers (some enodev), fun _ _ => trivial⟩
  · exact .cons (window_twoBuffers none) step_allocated ⟨trivial, fun _ _ => trivial⟩
  · exact .cons (window_twoBuffers none) step_allocated ⟨trivial, fun _ _ => trivial⟩
  · rintro ⟨⟨⟨a, hstep, -⟩, -⟩, -⟩
    exact absurd hstep (by simp [show step {} (.allocateBuffer 2 (twoBuffers (some enodev))) =
      none from rfl])
  · rintro ⟨-, h⟩
    obtain ⟨⟨a, hstep, -⟩, -⟩ := (h _ step_allocated).1
    exact absurd hstep (by simp [show step allocated (.postFrame (frameOf 0x3000) 0) =
      none from rfl])
  · rintro ⟨-, h⟩
    obtain ⟨⟨a, hstep, hsound⟩, -⟩ := (h _ step_allocated).1
    cases hstep
    have hkey := (hsound.keys 0x1000).mpr ⟨first, List.mem_singleton.mpr rfl, rfl⟩
    exact absurd hkey List.not_mem_nil

end Omap4Hal.Camera.WindowBuffers

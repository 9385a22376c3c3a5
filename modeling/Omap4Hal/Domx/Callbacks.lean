import Omap4Hal.Domx.BufferTable

/- Delivery of the two callbacks. A callback is right when it writes the one live
   header that was registered with the remote header it names and hands it to
   the client once, or writes nothing and reports an error.

   The search takes the first slot below the mark that carries the remote
   header. A slot that `PROXY_FreeBuffer` has zeroed stays below the mark and
   carries 0, so a callback that names 0 finds it and writes through a null
   pointer; a slot with a header freed by a failed registration carries 0 as
   well. `callbacks_correct_iff` gives the exact condition for any state, and what
   it comes to when every registration so far was answered with a remote header
   of its own. -/
namespace Omap4Hal.Domx
open Lib
open Proxy

/-- Slot `i` holds a live header registered with `r`, and is the only one. -/
def Proxy.OnlyHolder (s : Proxy) (r : UInt32) (i : Nat) : Prop :=
  s.holdsLive i = true ∧ (s.tBufList i).pBufHeaderRemote = r ∧
  ∀ j, s.holdsLive j = true → (s.tBufList j).pBufHeaderRemote = r → j = i

/-- What a callback may do: write the header registered with `r` and hand it to
the client once, or report an error and write nothing. -/
def DoneCorrect (s : Proxy) (r : UInt32) (update : HeaderFields → HeaderFields)
    (done : UInt32 → ClientEvent) (out : Option (List ClientEvent × Proxy)) : Prop :=
  (∃ i h, s.OnlyHolder r i ∧ s.heap (s.tBufList i).pBufHeader = some h ∧
    out = some ([done (s.tBufList i).pBufHeader],
      s.setHeader (s.tBufList i).pBufHeader (some { h with fields := update h.fields }))) ∨
  (∃ err, out = some ([.eventError err], s))

/-- Both callbacks are right for the remote header `r`. -/
def CallbacksCorrect (s : Proxy) (r : UInt32) : Prop :=
  ∀ a t mark,
    DoneCorrect s r (emptyDoneFields a) .emptyBufferDone (proxyEmptyBufferDone s r a) ∧
    DoneCorrect s r (fillDoneFields a t mark) .fillBufferDone (proxyFillBufferDone s r a t mark)

/-- The first slot below the mark that carries `r`, if there is one, is the only
slot with a live header registered with `r`. -/
def Selects (s : Proxy) (r : UInt32) : Prop :=
  ∀ i, i < s.nTotalBuffers → (s.tBufList i).pBufHeaderRemote = r →
    (∀ j, j < i → (s.tBufList j).pBufHeaderRemote ≠ r) → s.OnlyHolder r i

/-- No slot below the mark is free. -/
def NoHole (s : Proxy) : Prop := ∀ i, i < s.nTotalBuffers → s.occupied i = true

variable {s s' : Proxy} {r : UInt32}

theorem slotOfRemote_eq_some {i : Nat} :
    s.slotOfRemote r = some i ↔ (s.tBufList i).pBufHeaderRemote = r ∧ i < s.nTotalBuffers ∧
      ∀ j, j < i → (s.tBufList j).pBufHeaderRemote ≠ r := by
  simp only [slotOfRemote, findBelow_eq_some, beq_iff_eq, beq_eq_false_iff_ne]

theorem bufferDone_correct_iff {update : HeaderFields → HeaderFields} {done : UInt32 → ClientEvent}
    (hinj : Function.Injective done) (hdone : ∀ p err, done p ≠ .eventError err) :
    DoneCorrect s r update done (bufferDone s r update done) ↔ Selects s r := by
  cases hslot : s.slotOfRemote r with
  | none =>
    have hnone : ∀ i, i < s.nTotalBuffers → (s.tBufList i).pBufHeaderRemote ≠ r := by
      intro i hi
      have := findBelow_eq_none.mp hslot i hi
      simpa using this
    refine iff_of_true ?_ ?_
    · right
      exact ⟨.badParameter, by simp only [bufferDone, hslot]⟩
    · intro i hi hr _
      exact absurd hr (hnone i hi)
  | some i =>
    obtain ⟨hr, hlt, hfirst⟩ := slotOfRemote_eq_some.mp hslot
    have hsel : Selects s r ↔ s.OnlyHolder r i := by
      constructor
      · intro h
        exact h i hlt hr hfirst
      · intro h j hj hrj hfj
        have : j = i := by
          rcases Nat.lt_trichotomy i j with hij | hij | hij
          · exact absurd hr (hfj i hij)
          · exact hij.symm
          · exact absurd hrj (hfirst j hij)
        exact this ▸ h
    rw [hsel]
    constructor
    · intro h
      rcases h with ⟨k, h, hk, hheap, hout⟩ | ⟨err, hout⟩
      · -- the header written is the one of slot `i`, so slot `i` holds it too
        simp only [bufferDone, hslot, Option.map_eq_some_iff] at hout
        obtain ⟨h', hheap', heq⟩ := hout
        have hp : (s.tBufList i).pBufHeader = (s.tBufList k).pBufHeader := by
          have := (Prod.mk.inj heq).1
          simp only [List.cons.injEq, and_true] at this
          exact hinj this
        have hlive : s.holdsLive i = true := by
          have := hk.1
          simp only [holdsLive, occupied, hp] at this ⊢
          exact this
        exact hk.2.2 i hlive hr ▸ hk
      · simp only [bufferDone, hslot, Option.map_eq_some_iff] at hout
        obtain ⟨h', _, heq⟩ := hout
        have := (Prod.mk.inj heq).1
        simp only [List.cons.injEq, and_true] at this
        exact absurd this (hdone _ _)
    · intro h
      have hlive : s.live (s.tBufList i).pBufHeader = true := by
        have := h.1
        simp only [holdsLive, Bool.and_eq_true] at this
        exact this.2
      obtain ⟨hd, hheap⟩ := Option.isSome_iff_exists.mp hlive
      left
      exact ⟨i, hd, h, hheap, by simp only [bufferDone, hslot, hheap, Option.map_some]⟩

theorem callbacksCorrect_iff_selects :
    CallbacksCorrect s r ↔ Selects s r := by
  have hempty : ∀ a, DoneCorrect s r (emptyDoneFields a) .emptyBufferDone
      (proxyEmptyBufferDone s r a) ↔ Selects s r := fun a =>
    bufferDone_correct_iff (fun _ _ h => by simpa using h) (fun _ _ h => by cases h)
  have hfill : ∀ a t mark, DoneCorrect s r (fillDoneFields a t mark) .fillBufferDone
      (proxyFillBufferDone s r a t mark) ↔ Selects s r := fun a t mark =>
    bufferDone_correct_iff (fun _ _ h => by simpa using h) (fun _ _ h => by cases h)
  constructor
  · intro h
    exact (hempty ⟨0, 0, 0⟩).mp (h ⟨0, 0, 0⟩ 0 none).1
  · intro h a t mark
    exact ⟨(hempty a).mpr h, (hfill a t mark).mpr h⟩

/-! ## Runs in which every registration was answered with a new remote header -/

/-- The condition on one call: a header that is stored is live, and comes with a
remote header that is not 0 and not in use. -/
def RegOk (cfg : Config) (s : Proxy) (c : Call) : Prop :=
  CallOk cfg s c ∧ (c.Registers cfg s → c.remoteHdr ≠ 0 ∧
    ∀ i, s.holdsLive i = true → (s.tBufList i).pBufHeaderRemote ≠ c.remoteHdr)

/-- Slots in use carry remote headers of their own, free slots carry 0. -/
structure RemoteSound (s : Proxy) : Prop where
  table : TableSound s
  nonNull : ∀ i, s.occupied i = true → (s.tBufList i).pBufHeaderRemote ≠ 0
  free : ∀ i, s.occupied i = false → (s.tBufList i).pBufHeaderRemote = 0
  unique : ∀ i j, s.occupied i = true → s.occupied j = true →
    (s.tBufList i).pBufHeaderRemote = (s.tBufList j).pBufHeaderRemote → i = j

theorem initial_remoteSound : RemoteSound initial := by
  refine ⟨initial_tableSound, fun i hi => ?_, fun i _ => rfl, fun i j hi => ?_⟩
  all_goals exact absurd hi (by simp [occupied, initial, ProxyBufferInfo.zero])

theorem Stores.remoteSound {p : UInt32} (h : Stores s s' p r true) (hs : RemoteSound s) (hr : r ≠ 0)
    (hnew : ∀ i, s.occupied i = true → (s.tBufList i).pBufHeaderRemote ≠ r) : RemoteSound s' := by
  refine ⟨h.sound hs.table, ?_, ?_, ?_⟩
  · intro i hi
    by_cases hslot : i = s.emptySlot
    · rw [hslot, h.remote]
      exact hr
    · rw [h.others i hslot]
      rw [h.occupied_other hslot] at hi
      exact hs.nonNull i hi
  · intro i hi
    by_cases hslot : i = s.emptySlot
    · rw [hslot, h.occupied_slot] at hi
      cases hi
    · rw [h.others i hslot]
      rw [h.occupied_other hslot] at hi
      exact hs.free i hi
  · intro i j hi hj hij
    by_cases hi' : i = s.emptySlot
    · by_cases hj' : j = s.emptySlot
      · rw [hi', hj']
      · rw [h.occupied_other hj'] at hj
        rw [hi', h.remote, h.others j hj'] at hij
        exact absurd hij.symm (hnew j hj)
    · rw [h.occupied_other hi'] at hi
      rw [h.others i hi'] at hij
      by_cases hj' : j = s.emptySlot
      · rw [hj', h.remote] at hij
        exact absurd hij (hnew i hi)
      · rw [h.occupied_other hj'] at hj
        rw [h.others j hj'] at hij
        exact hs.unique i j hi hj hij

theorem Frees.remoteSound {p : UInt32} {k : Nat} (h : Frees s s' p k) (hs : RemoteSound s) :
    RemoteSound s' := by
  refine ⟨h.sound hs.table, ?_, ?_, ?_⟩
  · intro i hi
    have hik := h.ne_slot hi
    rw [h.occupied_other hik] at hi
    rw [h.others i hik]
    exact hs.nonNull i hi
  · intro i hi
    by_cases hik : i = k
    · rw [hik, h.cleared]
      rfl
    · rw [h.occupied_other hik] at hi
      rw [h.others i hik]
      exact hs.free i hi
  · intro i j hi hj hij
    have hik := h.ne_slot hi
    have hjk := h.ne_slot hj
    rw [h.occupied_other hik] at hi
    rw [h.occupied_other hjk] at hj
    rw [h.others i hik, h.others j hjk] at hij
    exact hs.unique i j hi hj hij

theorem step_remoteSound {cfg : Config} {c : Call} (hs : RemoteSound s) (hok : RegOk cfg s c)
    (h : step cfg s c = some s') : RemoteSound s' := by
  cases step_cases h with
  | frame _ hf =>
    refine ⟨hf.sound hs.table, ?_, ?_, ?_⟩
    · intro i hi
      rw [hf.remote]
      exact hs.nonNull i (hf.occupied i ▸ hi)
    · intro i hi
      rw [hf.remote]
      exact hs.free i (hf.occupied i ▸ hi)
    · intro i j hi hj hij
      rw [hf.remote, hf.remote] at hij
      exact hs.unique i j (hf.occupied i ▸ hi) (hf.occupied j ▸ hj) hij
  | stored p _ hreg hst =>
    obtain ⟨hr, hnew⟩ := hok.2 hreg
    refine hst.remoteSound hs hr ?_
    intro i hi
    exact hnew i ((holdsLive_eq hs.table i).trans hi)
  | dangling p hbad _ => exact absurd hok.1 hbad
  | freed p i _ hfree => exact hfree.remoteSound hs

/-- With sound remote headers the search goes wrong for 0 alone, and only when it
meets a free slot. -/
theorem RemoteSound.selects_iff (hs : RemoteSound s) (r : UInt32) :
    Selects s r ↔ r ≠ 0 ∨ NoHole s := by
  have honly : ∀ i, s.occupied i = true → (s.tBufList i).pBufHeaderRemote = r →
      s.OnlyHolder r i := by
    intro i hi hr
    refine ⟨(holdsLive_eq hs.table i).trans hi, hr, ?_⟩
    intro j hj hrj
    rw [holdsLive_eq hs.table] at hj
    exact hs.unique j i hj hi (hrj.trans hr.symm)
  constructor
  · intro h
    by_contra hneg
    simp only [not_or, Decidable.not_not, NoHole, not_forall] at hneg
    obtain ⟨hr, i, hi, hfree⟩ := hneg
    have hfree' : s.occupied i = false := by simpa using hfree
    -- the first slot that carries 0 is at or below the hole, and is free itself
    have hex : ∃ k, s.slotOfRemote r = some k := by
      cases hk : s.slotOfRemote r with
      | some k => exact ⟨k, rfl⟩
      | none =>
        have := findBelow_eq_none.mp hk i hi
        simp only [beq_eq_false_iff_ne, ne_eq, hr] at this
        exact absurd (hs.free i hfree') this
    obtain ⟨k, hk⟩ := hex
    obtain ⟨hrk, hlt, hfirst⟩ := slotOfRemote_eq_some.mp hk
    have hlive := (h k hlt hrk hfirst).1
    rw [holdsLive_eq hs.table] at hlive
    exact hs.nonNull k hlive (hrk.trans hr)
  · intro h i hi hri _
    rcases h with hr | hfull
    · apply honly i _ hri
      cases ho : s.occupied i with
      | true => rfl
      | false => exact absurd (hri.symm.trans (hs.free i ho)) hr
    · exact honly i (hfull i hi) hri

/-- For every state a run reaches and every remote header: the callbacks are
right exactly when the search selects right. If every registration of the run
was answered with a new remote header, that means: unless 0 is named while a slot
below the mark is free. -/
theorem callbacks_correct_iff {cfg : Config} {calls : List Call} {s : Proxy}
    (h : run (step cfg) initial calls = some s) (r : UInt32) :
    (CallbacksCorrect s r ↔ Selects s r) ∧
    (Guarded (step cfg) (RegOk cfg) initial calls →
      (CallbacksCorrect s r ↔ r ≠ 0 ∨ NoHole s)) := by
  refine ⟨callbacksCorrect_iff_selects, ?_⟩
  intro hG
  have hs : RemoteSound s :=
    hG.run_induct (fun _ _ _ hs hok h => step_remoteSound hs hok h) initial_remoteSound h
  rw [callbacksCorrect_iff_selects, hs.selects_iff]

/-- One buffer is registered, and the remote side gives it back. -/
theorem callbacks_correct_registered :
    ∃ s, run (step ionConfig) initial [.useBuffer true 0x2000 plainUse] = some s ∧
      Guarded (step ionConfig) (RegOk ionConfig) initial [.useBuffer true 0x2000 plainUse] ∧
      CallbacksCorrect s 0x9000 := by
  have hG : Guarded (step ionConfig) (RegOk ionConfig) initial
      [.useBuffer true 0x2000 plainUse] := by
    refine ⟨⟨fun _ => ⟨rfl, by decide⟩, fun _ => ⟨by decide, ?_⟩⟩, fun _ _ => trivial⟩
    intro i hi
    exact absurd hi (by simp [holdsLive, occupied, initial, ProxyBufferInfo.zero])
  exact ⟨_, rfl, hG, ((callbacks_correct_iff rfl 0x9000).2 hG).mpr (Or.inl (by decide))⟩

/-- The buffer is freed, and the remote side names 0: the callback writes through
the null pointer of the freed slot. -/
theorem callbacks_fault :
    (∃ s, run (step ionConfig) initial
        [.useBuffer true 0x2000 plainUse, .freeBuffer 0x1000 ⟨.none, .none⟩] = some s ∧
      s.slotOfRemote 0 = some 0 ∧ s.tBufList 0 = .zero ∧
      proxyEmptyBufferDone s 0 ⟨0, 0, 0⟩ = none ∧
      proxyFillBufferDone s 0 ⟨0, 0, 0⟩ 0 none = none) ∧
    ¬ ∀ cfg calls s r, run (step cfg) initial calls = some s → CallbacksCorrect s r := by
  have hrun : run (step ionConfig) initial
      [.useBuffer true 0x2000 plainUse, .freeBuffer 0x1000 ⟨.none, .none⟩] = some _ := rfl
  refine ⟨⟨_, hrun, by decide, by decide, rfl, rfl⟩, ?_⟩
  intro hall
  rcases (hall _ _ _ 0 hrun ⟨0, 0, 0⟩ 0 none).1 with ⟨i, h, _, _, hout⟩ | ⟨err, hout⟩
  · cases hout
  · cases hout

end Omap4Hal.Domx

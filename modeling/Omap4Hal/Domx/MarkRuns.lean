import Omap4Hal.Domx.BufferTable
import Omap4Hal.Domx.Marks

/- The marks of the proxy, over whole runs. A wrapper is allocated exactly while the remote
   component has it, and has the mark that the client sent (`MarksInv`). A call with a mark
   ends in one of four ways (`Sends`), whichever function makes it; what the functions differ
   in is the mark that they leave with the caller.

   `marks_sound_iff` is the result: what goes wrong is the mark of a caller that gets an
   error, and exactly where `MarkOk` says. -/
namespace Omap4Hal.Domx
open Lib
open Function (update update_eq_self update_idem update_of_ne update_self)
open Marking
open Option (bind_some map_some)
open MarkResult
open List (map_append map_cons map_nil mem_singleton)

/-! ## The invariant -/

def Mark.wrapped (k : Mark) : ProxyMarkData := ⟨k.hMarkTargetComponent, k.pMarkData⟩

structure MarksInv (w : Marking) : Prop where
  live : ∀ a, w.marks a = (w.pending.lookup a).map Mark.wrapped
  keys : (w.pending.map Prod.fst).Nodup
  sound : MarksSound w

theorem marksInv_initial : MarksInv {} :=
  ⟨fun _ => rfl, List.nodup_nil, ⟨nofun, balanced_nil, balanced_nil, nofun⟩⟩

variable {w : Marking} {a : UInt32} {k : Mark} {r : MarkResult}

theorem MarksInv.withProxy (h : MarksInv w) (s : Proxy) :
    MarksInv { w with proxy := s } :=
  ⟨h.live, h.keys, ⟨h.sound.right, h.sound.once, h.sound.freed, h.sound.restored⟩⟩

theorem marking_malloc {found : Option UInt32} (h : w.malloc found = some a) :
    a ≠ 0 ∧ w.marks a = none := by
  simpa [malloc, Option.filter_eq_some_iff] using (Option.filter_eq_some_iff.mp h).2

/-! ## Sending a mark -/

/-- A wrapper that is allocated and freed within a call. -/
def Marking.passed (w : Marking) (a : UInt32) : Marking :=
  { w with mallocs := w.mallocs ++ [a], frees := w.frees ++ [a] }

/-- How a call with the mark `k` can end. -/
inductive Sends (w : Marking) (k : Mark) : MarkResult → Prop where
  | plain : Sends w k ⟨w, .none, k, none⟩
  | accepted (a : UInt32) (mark : Mark) (hnew : w.marks a = none) :
      Sends w k ⟨w.wrap a k.wrapped, .none, mark, some a⟩
  | refused (err : OmxError) (mark : Mark) (herr : err ≠ .none) : Sends w k ⟨w, err, mark, none⟩
  | freed (a : UInt32) (err : OmxError) (mark : Mark) (herr : err ≠ .none) :
      Sends w k ⟨w.passed a, err, mark, none⟩

theorem free_wrap (hnew : w.marks a = none) (d : ProxyMarkData) :
    (w.wrap a d).free a = some (w.passed a) := by
  have hback : update (update w.marks a (some d)) a none = w.marks := by
    rw [update_idem, ← hnew, update_eq_self]
  simp only [free, wrap, update_self, map_some, hback]
  rfl

/-- Whoever gets an error has the mark that he had. -/
def MarkResult.Restored (k : Mark) (r : MarkResult) : Prop := r.err ≠ .none → r.mark = k

theorem MarksInv.accept (h : MarksInv w) (hnew : w.marks a = none) (k : Mark) (mark : Mark) :
    MarksInv (note k ⟨w.wrap a k.wrapped, .none, mark, some a⟩) := by
  have hlook : w.pending.lookup a = none := by
    have hlive := h.live a
    rw [hnew] at hlive
    exact Option.map_eq_none_iff.mp hlive.symm
  simp only [note, ne_eq, not_true_eq_false, if_false]
  refine ⟨?_, ?_, ⟨h.sound.right, ?_, ?_, h.sound.restored⟩⟩
  · intro b
    change update w.marks a (some k.wrapped) b = ((w.pending ++ [(a, k)]).lookup b).map _
    rw [List.lookup_append]
    by_cases hb : b = a
    · subst hb
      simp [hlook]
    · rw [update_of_ne hb, h.live b, List.lookup_cons, beq_eq_false_iff_ne.mpr hb,
        List.lookup_nil, Option.or_none]
  · simp only [wrap, map_append, map_cons, map_nil]
    refine List.nodup_append.mpr ⟨h.keys, List.nodup_singleton _, ?_⟩
    intro b hb c hc heq
    obtain ⟨p, hp, rfl⟩ := List.mem_map.mp hb
    have hne := List.lookup_eq_none_iff.mp hlook p hp
    rw [heq, mem_singleton.mp hc] at hne
    simp at hne
  · simp only [wrap, map_append, map_cons, map_nil]
    exact h.sound.once.take k
  · simp only [wrap, map_append, map_cons, map_nil]
    exact h.sound.freed.take a

theorem MarksInv.refuse (h : MarksInv w) {mark : Mark} (hmark : mark = k) :
    MarksInv { w with refused := w.refused ++ [(k, mark)] } := by
  refine ⟨h.live, h.keys, ⟨h.sound.right, h.sound.once, h.sound.freed, ?_⟩⟩
  intro r hr
  rcases List.mem_append.mp hr with hr | hr
  · exact h.sound.restored r hr
  · rw [mem_singleton.mp hr]
    exact hmark

theorem MarksInv.passed (h : MarksInv w) (a : UInt32) : MarksInv (w.passed a) :=
  ⟨h.live, h.keys, ⟨h.sound.right, h.sound.once, h.sound.freed.pass a, h.sound.restored⟩⟩

theorem Sends.inv (h : Sends w k r) (hw : MarksInv w) (hmark : r.Restored k) :
    MarksInv (r.note k) := by
  cases h with
  | plain => exact hw
  | accepted a mark hnew => exact hw.accept hnew k mark
  | refused err mark herr =>
    simp only [note, if_pos herr]
    exact hw.refuse (hmark herr)
  | freed a err mark herr =>
    simp only [note, if_pos herr]
    exact (hw.passed a).refuse (hmark herr)

theorem note_not_sound (hmark : ¬ r.Restored k) :
    (k, r.mark) ∈ (r.note k).refused ∧ r.mark ≠ k := by
  rw [MarkResult.Restored, Classical.not_imp] at hmark
  obtain ⟨herr, hne⟩ := hmark
  refine ⟨?_, hne⟩
  rw [note, if_pos herr]
  exact List.mem_append_right _ (mem_singleton.mpr rfl)

/-- How the mark is replaced. -/
inductive Wraps (w : Marking) (k : Mark) (m : MarkEnv) : MarkResult → Prop where
  | unknown (herr : m.isProxyErr ≠ .none) : Wraps w k m ⟨w, m.isProxyErr, k, none⟩
  | noMemory (hok : m.isProxyErr = .none) (hnone : w.malloc m.markAddr = none) :
      Wraps w k m ⟨w, .insufficientResources, { k with pMarkData := 0 }, none⟩
  | noPrivate (a : UInt32) (hok : m.isProxyErr = .none) (hsome : w.malloc m.markAddr = some a)
      (hproxy : m.bIsProxy = true) (hpriv : m.hasPrivate = false) :
      Wraps w k m ⟨w.wrap a k.wrapped, .badParameter, { k with pMarkData := a }, some a⟩
  | proxy (a : UInt32) (hok : m.isProxyErr = .none) (hsome : w.malloc m.markAddr = some a)
      (hproxy : m.bIsProxy = true) (hpriv : m.hasPrivate = true) :
      Wraps w k m ⟨w.wrap a k.wrapped, .none, ⟨m.hRemote, a⟩, some a⟩
  | real (a : UInt32) (hok : m.isProxyErr = .none) (hsome : w.malloc m.markAddr = some a)
      (hproxy : m.bIsProxy = false) :
      Wraps w k m ⟨w.wrap a k.wrapped, .none, { k with pMarkData := a }, some a⟩

theorem wrapMark_wraps (w : Marking) (k : Mark) (m : MarkEnv) : Wraps w k m (w.wrapMark k m) := by
  rw [wrapMark]
  split
  · next herr => exact .unknown herr
  · next hok =>
    rw [Decidable.not_not] at hok
    split
    · next hnone => exact .noMemory hok hnone
    · next a hsome =>
      split
      · next hproxy =>
        split
        · next hpriv => exact .proxy a hok hsome hproxy hpriv
        · next hpriv => exact .noPrivate a hok hsome hproxy (Bool.eq_false_iff.mpr hpriv)
      · next hproxy => exact .real a hok hsome (Bool.eq_false_iff.mpr hproxy)

theorem setData_eq_iff (k : Mark) (a : UInt32) :
    { k with pMarkData := a } = k ↔ k.pMarkData = a := by
  constructor
  · intro h
    rw [← h]
  · rintro rfl
    rfl

theorem emptyMark_sends (w : Marking) (k : Mark) (m : MarkEnv) (e : RpcEnv) :
    ∃ r, w.emptyMark k m e = some r ∧ Sends w k r ∧
      (r.Restored k ↔ (k.hMarkTargetComponent ≠ 0 → m.isProxyErr = .none →
        w.malloc m.markAddr = none → k.pMarkData = 0)) := by
  rw [emptyMark]
  by_cases htarget : k.hMarkTargetComponent ≠ 0
  · rw [if_pos htarget]
    have hwraps := wrapMark_wraps w k m
    generalize w.wrapMark k m = r at hwraps
    -- with the wrapper in the header, what is put back comes out of it
    have hrest : ∀ (a : UInt32) (err : OmxError) (mark : Mark), w.marks a = none →
        mark.pMarkData = a →
        ∃ r', restore ⟨w.wrap a k.wrapped, err, mark, some a⟩ = some r' ∧
          Sends w k r' ∧ r'.Restored k := by
      rintro a err mark hnew rfl
      by_cases herr : err = .none
      · subst herr
        exact ⟨_, if_neg (by simp), .accepted _ mark hnew, fun hne => absurd rfl hne⟩
      · refine ⟨⟨w.passed mark.pMarkData, err, k, none⟩, ?_, .freed _ err k herr, fun _ => rfl⟩
        rw [restore, if_pos ⟨herr, by simp⟩, free_wrap hnew]
        simp only [wrap, update_self, bind_some, map_some]
        rfl
    cases hwraps with
    | unknown herr =>
      simp only [if_pos herr]
      exact ⟨_, if_neg (by simp), .refused _ k herr,
        iff_of_true (fun _ => rfl) fun _ hok => absurd hok herr⟩
    | noMemory hok hnone =>
      simp only [ne_eq, reduceCtorEq, not_false_eq_true, if_true]
      refine ⟨_, if_neg (by simp), .refused _ _ (by simp), ?_⟩
      rw [MarkResult.Restored]
      simp only [setData_eq_iff]
      exact ⟨fun h _ _ _ => h (by simp), fun h _ => h htarget hok hnone⟩
    | noPrivate a hok hsome hproxy hpriv =>
      obtain ⟨r', hr', hsends, hmark⟩ :=
        hrest a .badParameter { k with pMarkData := a } (marking_malloc hsome).2 rfl
      refine ⟨r', ?_, hsends, iff_of_true hmark fun _ _ hnone => ?_⟩
      · simpa using hr'
      · rw [hsome] at hnone
        cases hnone
    | proxy a hok hsome hproxy hpriv =>
      obtain ⟨r', hr', hsends, hmark⟩ :=
        hrest a (checkRpcError e.rpc e.comp).1 ⟨m.hRemote, a⟩ (marking_malloc hsome).2 rfl
      refine ⟨r', ?_, hsends, iff_of_true hmark fun _ _ hnone => ?_⟩
      · simpa using hr'
      · rw [hsome] at hnone
        cases hnone
    | real a hok hsome hproxy =>
      obtain ⟨r', hr', hsends, hmark⟩ :=
        hrest a (checkRpcError e.rpc e.comp).1 { k with pMarkData := a } (marking_malloc hsome).2
          rfl
      refine ⟨r', ?_, hsends, iff_of_true hmark fun _ _ hnone => ?_⟩
      · simpa using hr'
      · rw [hsome] at hnone
        cases hnone
  · rw [if_neg htarget]
    simp only [ne_eq, not_true_eq_false, if_false]
    refine ⟨_, if_neg (by simp), ?_, iff_of_true (fun _ => rfl) fun hne => absurd hne htarget⟩
    by_cases herr : (checkRpcError e.rpc e.comp).1 = .none
    · rw [herr]
      exact .plain
    · exact .refused _ k herr

/-- `PROXY_SendCommand` puts the mark back after the remote call, if the target is a proxy;
the wrapper is freed in any case. -/
theorem sendMark_sends (w : Marking) (k : Mark) (m : MarkEnv) (e : RpcEnv) :
    ∃ r, w.sendMark k m e = some r ∧ Sends w k r ∧
      (r.Restored k ↔ (m.isProxyErr = .none →
        match w.malloc m.markAddr with
        | none => k.pMarkData = 0
        | some a => (if m.bIsProxy then m.hasPrivate = true
            else (checkRpcError e.rpc e.comp).1 = .none) ∨ k.pMarkData = a)) := by
  have hdrop : ∀ (a : UInt32) (err : OmxError) (mark : Mark), w.marks a = none →
      ∃ r', drop ⟨w.wrap a k.wrapped, err, mark, some a⟩ = some r' ∧ Sends w k r' ∧
        r'.err = err ∧ r'.mark = mark := by
    intro a err mark hnew
    by_cases herr : err = .none
    · subst herr
      exact ⟨_, rfl, .accepted a mark hnew, rfl, rfl⟩
    · refine ⟨⟨w.passed a, err, mark, none⟩, ?_, .freed a err mark herr, rfl, rfl⟩
      simp only [drop, if_pos herr, free_wrap hnew, map_some]
  have hwraps := wrapMark_wraps w k m
  rw [sendMark]
  generalize w.wrapMark k m = r at hwraps
  cases hwraps with
  | unknown herr =>
    rw [if_pos herr]
    exact ⟨_, rfl, .refused _ k herr, iff_of_true (fun _ => rfl) fun hok => absurd hok herr⟩
  | noMemory hok hnone =>
    rw [if_pos (by simp), hnone]
    refine ⟨_, rfl, .refused _ _ (by simp), ?_⟩
    rw [MarkResult.Restored]
    simp only [setData_eq_iff]
    exact ⟨fun h _ => h (by simp), fun h _ => h hok⟩
  | noPrivate a hok hsome hproxy hpriv =>
    obtain ⟨r', hr', hsends, herr, hmark⟩ :=
      hdrop a .badParameter { k with pMarkData := a } (marking_malloc hsome).2
    refine ⟨r', by rw [if_pos (by simp)]; exact hr', hsends, ?_⟩
    rw [MarkResult.Restored, herr, hmark, setData_eq_iff, hsome]
    simp [hok, hproxy, hpriv]
  | proxy a hok hsome hproxy hpriv =>
    obtain ⟨r', hr', hsends, herr, hmark⟩ :=
      hdrop a (checkRpcError e.rpc e.comp).1 k (marking_malloc hsome).2
    refine ⟨r', ?_, hsends, iff_of_true (fun _ => hmark) fun _ => ?_⟩
    · simpa [hproxy] using hr'
    · simp [hsome, hproxy, hpriv]
  | real a hok hsome hproxy =>
    obtain ⟨r', hr', hsends, herr, hmark⟩ :=
      hdrop a (checkRpcError e.rpc e.comp).1 { k with pMarkData := a } (marking_malloc hsome).2
    refine ⟨r', by simpa [hproxy] using hr', hsends, ?_⟩
    rw [MarkResult.Restored, herr, hmark, setData_eq_iff, hsome]
    simp only [hok, hproxy, Bool.false_eq_true, if_false, true_implies]
    exact Decidable.or_iff_not_imp_left.symm

/-! ## Getting it back -/

/-- A wrapper that the remote component has is freed, and the client gets the mark. -/
theorem MarksInv.receive (h : MarksInv w) (hmem : (a, k) ∈ w.pending) {P : Mark → Receipt}
    (hsent : (P k).sent = k) (hright : (P k).Right) :
    w.marks a = some k.wrapped ∧
      ∃ w', w.free a = some w' ∧ w'.proxy = w.proxy ∧ MarksInv (w'.receive a P) := by
  have hlook := lookup_of_mem h.keys hmem
  have hmarks : w.marks a = some k.wrapped := by rw [h.live, hlook, map_some]
  have hperm := perm_cons_filter_key h.keys hmem
  refine ⟨hmarks, { w with marks := update w.marks a none, frees := w.frees ++ [a] },
    by rw [free, hmarks, map_some], rfl, ?_⟩
  simp only [Marking.receive, hlook]
  refine ⟨?_, ?_, ⟨?_, ?_, ?_, h.sound.restored⟩⟩
  · intro b
    rw [lookup_filter_key]
    by_cases hb : b = a
    · rw [if_pos hb, hb]
      simp only [update_self, Option.map_none]
    · rw [if_neg hb]
      simp only [update_of_ne hb, h.live]
  · exact h.keys.sublist (List.filter_sublist.map Prod.fst)
  · intro r hr
    rcases List.mem_append.mp hr with hr | hr
    · exact h.sound.right r hr
    · rw [mem_singleton.mp hr]
      exact hright
  · rw [map_append, List.map_singleton, hsent]
    exact h.sound.once.give (hperm.map Prod.snd)
  · exact h.sound.freed.give (hperm.map Prod.fst)

theorem receive_withProxy (w : Marking) (s : Proxy) (a : UInt32) (receipt : Mark → Receipt) :
    { w with proxy := s }.receive a receipt = { w.receive a receipt with proxy := s } := by
  simp only [Marking.receive]
  split <;> rfl

theorem eventMark_inv (h : MarksInv w) {x : UInt32} (hx : x = 0 ∨ ∃ k, (x, k) ∈ w.pending) :
    ∃ w', w.eventMark x = some w' ∧ MarksInv w' := by
  rw [Marking.eventMark]
  by_cases hzero : x = 0
  · exact ⟨w, if_pos hzero, h⟩
  obtain ⟨k, hmem⟩ := hx.resolve_left hzero
  obtain ⟨hmarks, w', hfree, -, hinv⟩ :=
    h.receive hmem (P := fun k' => .eventMark k' k.pMarkData) rfl rfl
  refine ⟨_, ?_, hinv⟩
  rw [if_neg hzero, hmarks, bind_some, hfree, map_some]
  rfl

theorem fillBufferDone_inv (h : MarksInv w) {r x : UInt32} (a : DoneArgs) (t : Int)
    (hlive : w.proxy.Live r) (hx : x = 0 ∨ ∃ k, (x, k) ∈ w.pending) :
    ∃ w', w.fillBufferDone r a t x = some w' ∧ MarksInv w' := by
  obtain ⟨i, hd, hslot, hheap⟩ := hlive
  have hdone : ∀ mark, proxyFillBufferDone w.proxy r a t mark =
      some ([.fillBufferDone (w.proxy.tBufList i).pBufHeader],
        w.proxy.setHeader (w.proxy.tBufList i).pBufHeader
          (some { hd with fields := fillDoneFields a t mark hd.fields })) := by
    intro mark
    simp only [proxyFillBufferDone, bufferDone, hslot, hheap, map_some]
  rw [Marking.fillBufferDone, hslot]
  by_cases hzero : x = 0
  · simp only [if_pos hzero, hdone, map_some]
    exact ⟨_, rfl, h.withProxy _⟩
  obtain ⟨k, hmem⟩ := hx.resolve_left hzero
  -- the header has what is in the wrapper, and that is what the client sent
  obtain ⟨hmarks, w', hfree, hproxy, hinv⟩ :=
    h.receive hmem (P := fun k' => .fillBufferDone k' k) rfl rfl
  simp only [if_neg hzero, hmarks, hdone, hfree, hproxy, bind_some, Proxy.setHeader,
    update_self, map_some, receive_withProxy]
  exact ⟨_, rfl, hinv.withProxy _⟩

/-! ## Runs -/

theorem Sends.noted (h : Sends w k r) (hw : MarksInv w) {ok : Prop} (hok : r.Restored k ↔ ok)
    (s : Proxy) :
    (ok → MarksInv { r.note k with proxy := s }) ∧
      (¬ ok → ¬ MarksSound { r.note k with proxy := s }) := by
  refine ⟨fun hk => (h.inv hw (hok.mpr hk)).withProxy s, ?_⟩
  intro hnot hsound
  obtain ⟨hmem, hne⟩ := note_not_sound (fun hr => hnot (hok.mp hr))
  exact hne (hsound.restored _ hmem)

theorem emptyThisBuffer_step (hw : MarksInv w) {p : UInt32} (hp : p = 0 ∨ (w.proxy.heap p).isSome)
    (m : MarkEnv) (e : RpcEnv) :
    ∃ w', w.emptyThisBuffer p m e = some w' ∧
      (MarkOk w (.emptyThisBuffer p m e) → MarksInv w') ∧
      (¬ MarkOk w (.emptyThisBuffer p m e) → ¬ MarksSound w') := by
  rw [Marking.emptyThisBuffer]
  by_cases hzero : p = 0
  · exact ⟨w, if_pos hzero, fun _ => hw, fun hnot => absurd (fun hne => absurd hzero hne) hnot⟩
  obtain ⟨h, hheap⟩ := Option.isSome_iff_exists.mp (hp.resolve_left hzero)
  rw [if_neg hzero, hheap, bind_some]
  -- the mark of the header is the only one that an allocation can be for
  have hmark : ∀ k, AllocatesMark w p m k → chkVersion h.fields = .none ∧ h.fields.mark = k := by
    intro k hk
    obtain ⟨h', hheap', hversion, hk'⟩ := hk.header
    rw [hheap, Option.some.injEq] at hheap'
    exact hheap' ▸ ⟨hversion, hk'⟩
  have hkept : ∀ err, err ≠ .none →
      MarksInv (note h.fields.mark ⟨w, err, h.fields.mark, none⟩) := fun err herr =>
    (Sends.refused err h.fields.mark herr).inv hw fun _ => rfl
  by_cases hversion : chkVersion h.fields ≠ .none
  · refine ⟨_, if_pos hversion, fun _ => hkept _ hversion, ?_⟩
    intro hnot
    exact absurd (fun _ k hk _ => absurd (hmark k hk).1 hversion) hnot
  rw [if_neg hversion]
  cases hslot : w.proxy.slotOf p with
  | none =>
    refine ⟨_, rfl, fun _ => hkept _ (by simp), ?_⟩
    intro hnot
    exact absurd (fun _ k hk _ => absurd hslot hk.found) hnot
  | some i =>
    obtain ⟨r, hr, hsends, hrest⟩ := emptyMark_sends w h.fields.mark m e
    refine ⟨_, by rw [hr, map_some], hsends.noted hw (hrest.trans ?_) _⟩
    rw [Decidable.not_not] at hversion
    constructor
    · intro hok _ k hk hnone
      obtain rfl := (hmark k hk).2
      exact hok hk.target hk.known hnone
    · intro hok htarget hknown hnone
      exact hok hzero _ ⟨⟨h, hheap, hversion, rfl⟩, by simp [hslot], htarget, hknown⟩ hnone

theorem sendCommand_step (hw : MarksInv w) (eCmd : OmxCommand) (pCmdData : Option Mark)
    (m : MarkEnv) (e : RpcEnv) :
    ∃ w', w.sendCommand eCmd pCmdData m e = some w' ∧
      (MarkOk w (.sendCommand eCmd pCmdData m e) → MarksInv w') ∧
      (¬ MarkOk w (.sendCommand eCmd pCmdData m e) → ¬ MarksSound w') := by
  cases eCmd with
  | other => exact ⟨w, rfl, fun _ => hw, fun hnot => absurd nofun hnot⟩
  | markBuffer =>
    cases pCmdData with
    | none => exact ⟨w, rfl, fun _ => hw, fun hnot => absurd nofun hnot⟩
    | some k =>
      rw [Marking.sendCommand]
      by_cases htarget : k.hMarkTargetComponent = 0
      · refine ⟨_, if_pos htarget, fun _ => ?_, ?_⟩
        · exact (Sends.refused _ k (by simp)).inv hw fun _ => rfl
        · intro hnot
          refine absurd ?_ hnot
          rintro k' - hk' htarget'
          rw [Option.some.inj hk'] at htarget
          exact absurd htarget htarget'
      · obtain ⟨r, hr, hsends, hrest⟩ := sendMark_sends w k m e
        refine ⟨r.note k, by rw [if_neg htarget, hr, map_some],
          hsends.noted hw (hrest.trans ?_) (r.note k).proxy⟩
        constructor
        · intro hok k' _ hk' _ hknown
          rw [← Option.some.inj hk']
          exact hok hknown
        · intro hok hknown
          exact hok k rfl rfl htarget hknown

theorem marks_step {cfg : Config} {c : MarkCall} (hw : MarksInv w) (hc : Echoes cfg w c) :
    ∃ w', w.step cfg c = some w' ∧ (MarkOk w c → MarksInv w') ∧
      (¬ MarkOk w c → ¬ MarksSound w') := by
  cases c with
  | emptyThisBuffer p m e => exact emptyThisBuffer_step hw hc m e
  | sendCommand eCmd pCmdData m e => exact sendCommand_step hw eCmd pCmdData m e
  | fillBufferDone r a t x =>
    obtain ⟨w', hstep, hinv⟩ := fillBufferDone_inv hw a t hc.1 hc.2
    exact ⟨w', hstep, fun _ => hinv, fun hnot => absurd trivial hnot⟩
  | eventMark x =>
    obtain ⟨w', hstep, hinv⟩ := eventMark_inv hw hc
    exact ⟨w', hstep, fun _ => hinv, fun hnot => absurd trivial hnot⟩
  | other c =>
    obtain ⟨s, hs⟩ := Option.isSome_iff_exists.mp hc.1
    refine ⟨{ w with proxy := s }, ?_, fun _ => hw.withProxy s, fun hnot => absurd trivial hnot⟩
    rw [Marking.step, hs, map_some]

/-- In a run in which the remote component gives back what it has, every mark comes back to
the client, every wrapper is freed and every caller that gets an error has its mark exactly
if all calls meet `MarkOk`. -/
theorem marks_sound_iff (cfg : Config) (calls : List MarkCall)
    (h : Guarded (Marking.step cfg) (Echoes cfg) {} calls) :
    Always (Marking.step cfg) MarksSound {} calls ↔ Guarded (Marking.step cfg) MarkOk {} calls := by
  apply always_iff_guarded_under (J := MarksInv) (fun _ hw => hw.sound) ?_ ?_ marksInv_initial h
  · intro w c hw hc hok
    obtain ⟨w', hstep, hgood, -⟩ := marks_step hw hc
    exact ⟨w', hstep, hgood hok⟩
  · intro w c w' hw hc hnot hstep
    obtain ⟨w'', hstep', -, hbad⟩ := marks_step hw hc
    obtain rfl : w'' = w' := by simpa [hstep] using hstep'.symm
    exact hbad hnot

/-- A header with a mark for the component at `0x500`. -/
def markedFields : HeaderFields :=
  { blankFields with
    nSize := headerSize, nVersionMajor := 1, nVersionMinor := 1, hMarkTargetComponent := 0x500,
    pMarkData := 0x600 }

theorem echoes_other {cfg : Config} {c : Call} (hsome : (Domx.step cfg w.proxy c).isSome)
    (hother : match c with | .emptyThisBuffer .. | .fillBufferDone .. => False | _ => True) :
    Echoes cfg w (.other c) := by
  refine ⟨hsome, ?_, ?_⟩
  · rintro p m e rfl
    exact hother
  · rintro r a t mark rfl
    exact hother

/-- The mark of a buffer goes out in a wrapper at `0x7000` and comes back in a buffer; that of
a command comes back in an event. -/
theorem marks_sound_echoed : Always (Marking.step ionConfig) MarksSound {}
    [.other (.useBuffer true 0x2000 plainUse), .other (.write 0x1000 markedFields),
      .emptyThisBuffer 0x1000 ⟨.none, true, some 0x7000, true, 0x800⟩ ⟨.none, .none⟩,
      .fillBufferDone 0x9000 ⟨0, 0, 0⟩ 0 0x7000,
      .sendCommand .markBuffer (some ⟨0x500, 0x600⟩) ⟨.none, false, some 0x7000, true, 0⟩
        ⟨.none, .none⟩,
      .eventMark 0x7000] := by
  refine (marks_sound_iff _ _ ?_).mpr ?_
  · refine .cons (echoes_other rfl trivial) rfl (.cons (echoes_other rfl trivial) rfl ?_)
    refine .cons (.inr rfl) rfl (.cons ⟨⟨0, _, rfl, rfl⟩, .inr ⟨⟨0x500, 0x600⟩, ?_⟩⟩ rfl ?_)
    · exact mem_singleton.mpr rfl
    · exact .cons trivial rfl (.cons (.inr ⟨⟨0x500, 0x600⟩, mem_singleton.mpr rfl⟩)
        rfl trivial)
  · refine .cons trivial rfl (.cons trivial rfl (.cons ?_ rfl (.cons trivial rfl ?_)))
    · intro _ k _ hnone
      cases hnone
    · refine .cons ?_ rfl (.cons trivial rfl trivial)
      intro k _ _ _ _
      exact .inl rfl

/-- A command with a mark for a component that is no proxy times out: its caller is left
with the address of a wrapper that has been freed. There is no memory for the wrapper of a
buffer's mark: the header has lost its mark data. -/
theorem marks_not_sound :
    (Guarded (Marking.step ionConfig) (Echoes ionConfig) {}
        [.sendCommand .markBuffer (some ⟨0x500, 0x600⟩) ⟨.none, false, some 0x7000, true, 0⟩
          ⟨.timeout, .none⟩] ∧
      ¬ Always (Marking.step ionConfig) MarksSound {}
        [.sendCommand .markBuffer (some ⟨0x500, 0x600⟩) ⟨.none, false, some 0x7000, true, 0⟩
          ⟨.timeout, .none⟩]) ∧
    Guarded (Marking.step ionConfig) (Echoes ionConfig) {}
      [.other (.useBuffer true 0x2000 plainUse), .other (.write 0x1000 markedFields),
        .emptyThisBuffer 0x1000 ⟨.none, true, none, true, 0x800⟩ ⟨.none, .none⟩] ∧
    ¬ Always (Marking.step ionConfig) MarksSound {}
      [.other (.useBuffer true 0x2000 plainUse), .other (.write 0x1000 markedFields),
        .emptyThisBuffer 0x1000 ⟨.none, true, none, true, 0x800⟩ ⟨.none, .none⟩] := by
  refine ⟨⟨.cons trivial rfl trivial, ?_⟩, ?_, ?_⟩
  · intro h
    obtain ⟨w, hw, hsound⟩ := h.last
    cases hw
    exact absurd (hsound.restored (⟨0x500, 0x600⟩, ⟨0x500, 0x7000⟩) (mem_singleton.mpr rfl))
      (by decide)
  · exact .cons (echoes_other rfl trivial) rfl (.cons (echoes_other rfl trivial) rfl
      (.cons (.inr rfl) rfl trivial))
  · intro h
    obtain ⟨w, hw, hsound⟩ := h.last
    cases hw
    exact absurd (hsound.restored (⟨0x500, 0x600⟩, ⟨0x500, 0⟩) (mem_singleton.mpr rfl))
      (by decide)

end Omap4Hal.Domx

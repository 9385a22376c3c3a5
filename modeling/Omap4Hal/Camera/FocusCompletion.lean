import Mathlib.Data.Nat.Find
import Omap4Hal.Camera.AutoFocus

/- When an autofocus request is completed (`autofocus_completes_iff`). A call of
   `returnFocusStatus` completes it unless the component has failed; then it may be told twice or
   never (`returnFocusStatus_failed`, `returnFocusStatus_forever`). The scan is cut into the wait
   and what follows it, and the requests into those of a component that has failed, is not
   executing, or is executing. -/
namespace Omap4Hal.Camera.AutoFocus
open Omap4Hal.Lib Omap4Hal.Camera.EventRegistry
open Focus
open AfEvents

variable {o : Outcomes} {v : AfEvents} {s s' : Focus}

/-! ## returnFocusStatus -/

theorem Left.congr {t : Focus} {told : List Bool} (h : Left o t told s')
    (hadapter : t.adapter = s.adapter) (hnotified : t.notified = s.notified)
    (hevents : t.events = s.events) : Left o s told s' := by
  have htarget : target o t = target o s := by rw [target, target, hadapter]
  refine ⟨h.locked, ?_, ?_, h.face, h.events.trans hevents⟩
  · rw [h.state, htarget, hadapter]
  · rw [h.notified, htarget, hnotified]

theorem returnFocusStatus_unstarted (h : afStarted s.adapter = false) (timeoutReached : Bool) :
    Gives (fun n => returnFocusStatus o n timeoutReached s) (noError, s) := by
  refine (Gives.const (noError, s)).succ rfl fun n => ?_
  rw [returnFocusStatus, h]
  rfl

theorem checkFocus_fails : (checkFocus o s).1 ≠ noError ↔ (o.getFocus s.asked).1 ≠ 0 := by
  rw [checkFocus]
  by_cases h : (o.getFocus s.asked).1 ≠ 0
  · simp [h, noError]
  · simp [h]

theorem returnFocusStatus_once (h : afStarted s.adapter = true) (timeoutReached : Bool)
    (hvalid : timeoutReached = false → s.invalid = false) :
    ∃ r told, Gives (fun n => returnFocusStatus o n timeoutReached s) r ∧ Left o s told r.2 ∧
      told.length = 1 := by
  suffices hone : ∃ t focusStatus, t.adapter = s.adapter ∧ t.notified = s.notified ∧
      t.events = s.events ∧
      ∀ n, returnFocusStatus o (n + 1) timeoutReached s = leaveAf o t focusStatus by
    obtain ⟨t, focusStatus, hadapter, hnotified, hevents, hsucc⟩ := hone
    obtain ⟨r, hr, hleft⟩ := leaveAf_left o t focusStatus
    refine ⟨r, [focusStatus], ?_, hleft.congr hadapter hnotified hevents, rfl⟩
    exact (Gives.const r).succ rfl fun n => (hsucc n).trans hr
  cases timeoutReached with
  | true =>
    refine ⟨s, false, rfl, rfl, rfl, fun n => ?_⟩
    rw [returnFocusStatus, h]
    rfl
  | false =>
    have hask : ∀ n, returnFocusStatus o (n + 1) false s =
        if (checkFocus o s).1 ≠ noError then leaveAf o (checkFocus o s).2.2 false
        else leaveAf o ((checkFocus o s).2.2.set3ALock true) ((checkFocus o s).2.1 = .reached) := by
      intro n
      have hsame : ((checkFocus o s).2.2.set3ALock true).invalid = false := by
        have hcheck : (checkFocus o s).2.2.invalid = false := hvalid rfl
        rw [set3ALock, hcheck]
        exact hcheck
      rw [returnFocusStatus, h]
      simp only [Bool.not_true, Bool.false_eq_true, if_false]
      rw [stopAutoFocus, hsame]
      rfl
    by_cases hret : (checkFocus o s).1 ≠ noError
    · refine ⟨(checkFocus o s).2.2, false, rfl, rfl, rfl, fun n => ?_⟩
      rw [hask, if_pos hret]
    · have hlock : (checkFocus o s).2.2.set3ALock true =
          { (checkFocus o s).2.2 with focusLock := true } :=
        if_neg (by simp [show (checkFocus o s).2.2.invalid = false from hvalid rfl])
      refine ⟨(checkFocus o s).2.2.set3ALock true, (checkFocus o s).2.1 = .reached, ?_, ?_, ?_,
        fun n => ?_⟩
      · rw [hlock]
        rfl
      · rw [hlock]
        rfl
      · rw [hlock]
        rfl
      · rw [hask, if_neg hret]

/-- A call while the component has failed: it ends if the component does not answer, and begins
again otherwise. -/
theorem returnFocusStatus_invalid (h : afStarted s.adapter = true) (hinvalid : s.invalid = true)
    (n : Nat) :
    returnFocusStatus o (n + 1) false s =
      if (o.getFocus s.asked).1 ≠ 0 then leaveAf o { s with asked := s.asked + 1 } false
      else (returnFocusStatus o n false { s with asked := s.asked + 1 }).bind fun r =>
        leaveAf o r.2 ((o.getFocus s.asked).2 = .reached) := by
  have hsame : invalid { s with asked := s.asked + 1 } = true := hinvalid
  rw [returnFocusStatus, h]
  simp only [Bool.not_true, Bool.false_eq_true, if_false]
  by_cases hret : (o.getFocus s.asked).1 ≠ 0
  · rw [if_pos hret, if_pos (checkFocus_fails.mpr hret)]
    rfl
  · have hlock : (checkFocus o s).2.2.set3ALock true = { s with asked := s.asked + 1 } :=
      if_pos hsame
    rw [if_neg hret, if_neg (mt checkFocus_fails.mp hret), hlock, stopAutoFocus, if_pos hsame]
    cases returnFocusStatus o n false { s with asked := s.asked + 1 } <;> rfl

theorem returnFocusStatus_failed (h : afStarted s.adapter = true) (hinvalid : s.invalid = true)
    {k : Nat} (hlast : (o.getFocus (s.asked + k)).1 ≠ 0)
    (hbefore : ∀ i < k, (o.getFocus (s.asked + i)).1 = 0) :
    ∃ r told, Gives (fun n => returnFocusStatus o n false s) r ∧ Left o s told r.2 ∧
      told.length = if target o s = some .video then 1 else k + 1 := by
  induction k generalizing s with
  | zero =>
    obtain ⟨r, hr, hleft⟩ := leaveAf_left o { s with asked := s.asked + 1 } false
    refine ⟨r, [false], ?_, hleft.congr rfl rfl rfl, by simp⟩
    refine (Gives.const r).succ rfl fun n => ?_
    have hfirst : (o.getFocus s.asked).1 ≠ 0 := hlast
    rw [returnFocusStatus_invalid h hinvalid, if_pos hfirst]
    exact hr
  | succ k ih =>
    have hlater : (o.getFocus (s.asked + 1 + k)).1 ≠ 0 := by
      rw [Nat.add_assoc, Nat.add_comm 1]
      exact hlast
    have hfirst : ¬ (o.getFocus s.asked).1 ≠ 0 := not_not.mpr (hbefore 0 (Nat.succ_pos k))
    obtain ⟨r, told, hgives, hleft, hlength⟩ :=
      ih (s := { s with asked := s.asked + 1 }) h hinvalid hlater (by
        intro i hi
        rw [Nat.add_assoc, Nat.add_comm 1]
        exact hbefore (i + 1) (Nat.succ_lt_succ hi))
    obtain ⟨r', told', hr', hagain, hlength'⟩ :=
      hleft.again ((o.getFocus s.asked).2 = .reached)
    refine ⟨r', told', ?_, hagain.congr rfl rfl rfl, ?_⟩
    · have hbind := hgives.bind (k := fun r => leaveAf o r.2 ((o.getFocus s.asked).2 = .reached))
        hr'
      refine hbind.succ rfl fun n => ?_
      rw [returnFocusStatus_invalid h hinvalid, if_neg hfirst]
    · have htarget : target o { s with asked := s.asked + 1 } = target o s := rfl
      rw [htarget] at hlength hlength'
      rw [hlength', hlength]
      split <;> rfl

theorem returnFocusStatus_forever (h : afStarted s.adapter = true) (hinvalid : s.invalid = true)
    (hanswers : ∀ i, (o.getFocus (s.asked + i)).1 = 0) (n : Nat) :
    returnFocusStatus o n false s = none := by
  induction n generalizing s with
  | zero => rfl
  | succ n ih =>
    have hrest := ih (s := { s with asked := s.asked + 1 }) h hinvalid (by
      intro i
      rw [Nat.add_assoc]
      exact hanswers (1 + i))
    have hfirst : ¬ (o.getFocus s.asked).1 ≠ 0 := not_not.mpr (hanswers 0)
    rw [returnFocusStatus_invalid h hinvalid, if_neg hfirst, hrest]
    rfl

/-! ## The scan -/

theorem deliver_count (v : AfEvents) (count : Nat) (events : List OmxEvent) :
    { v with count := count }.deliver events =
      { v.deliver events with count := count + ((v.deliver events).count - v.count) } := by
  rw [(deliver_eq v events).1, (deliver_eq { v with count := count } events).1]
  simp only [AfEvents.mk.injEq, true_and]
  omega

theorem deliver_le (v : AfEvents) (events : List OmxEvent) :
    v.count ≤ (v.deliver events).count := by
  rw [(deliver_eq v events).1]
  exact Nat.le_add_right _ _

theorem deliver_append (v : AfEvents) (es fs : List OmxEvent) :
    (v.deliver es).deliver fs = v.deliver (es ++ fs) :=
  List.foldl_append.symm

theorem removeEvent_registrations (v : AfEvents) :
    v.removeEvent.registrations = 0 ↔ v.registrations = 0 ∨ v.registrations = 1 ∧
      ∃ m rest, takeFirst (accepts focusEvent) v.world.mEventSignalQ = some (m, rest) ∧
        m.arg3 = v.mDoAFSem := by
  have hq := (removeEvent_eq v.world focusEvent).1
  rw [registrations, registrations, removeEvent, waiting, waiting, hq]
  have hperm := (takeFirst_perm (accepts focusEvent) v.world.mEventSignalQ).countP_eq
    fun m => m.arg3 = v.mDoAFSem
  cases htake : takeFirst (accepts focusEvent) v.world.mEventSignalQ with
  | none => simp
  | some r =>
    obtain ⟨m, rest⟩ := r
    rw [htake] at hperm
    simp only [Option.map_some, Option.toList_some, Option.elim_some, List.singleton_append,
      List.countP_cons, decide_eq_true_eq] at hperm
    simp only [Option.elim_some, Option.some.injEq, Prod.mk.injEq]
    by_cases hours : m.arg3 = v.mDoAFSem
    · rw [if_pos hours] at hperm
      constructor
      · intro hrest
        exact .inr ⟨by omega, m, rest, ⟨rfl, rfl⟩, hours⟩
      · rintro (hzero | ⟨hone, -⟩) <;> omega
    · rw [if_neg hours] at hperm
      constructor
      · intro hrest
        exact .inl (by omega)
      · rintro (hzero | ⟨-, m', rest', ⟨rfl, rfl⟩, hm'⟩)
        · omega
        · exact absurd hm' hours

theorem waitTimeout_spec (o : Outcomes) (v : AfEvents) :
    ((v.waitTimeout o).1 ≠ noError ↔ v.expires o = true) ∧
      (v.waitTimeout o).2.mDoAFSem = v.mDoAFSem ∧
      (v.waitTimeout o).2.world = (o.during ++ o.late).foldl World.eventHandler v.world := by
  have hworld : ∀ count, ({ v.deliver o.during with count := count }.deliver o.late).mDoAFSem =
        v.mDoAFSem ∧
      ({ v.deliver o.during with count := count }.deliver o.late).world =
        (o.during ++ o.late).foldl World.eventHandler v.world := by
    intro count
    rw [deliver_count, deliver_append, (deliver_eq v _).1]
    exact ⟨rfl, rfl⟩
  rw [waitTimeout]
  cases v.expires o with
  | true => exact ⟨by simp [noError], hworld 0⟩
  | false => exact ⟨by simp, hworld _⟩

theorem expired_iff (hexpires : v.expires o = true) :
    let u := (v.deliver o.during).deliver o.late
    ((v.waitTimeout o).2.removeEvent.registrations = 0 ∧
        (v.waitTimeout o).2.removeEvent.count = 0) ↔
      u.count = (v.deliver o.during).count ∧ (u.registrations = 0 ∨ u.registrations = 1 ∧
        ∃ m rest, takeFirst (accepts focusEvent) u.world.mEventSignalQ = some (m, rest) ∧
          m.arg3 = u.mDoAFSem) := by
  intro u
  have hle : (v.deliver o.during).count ≤ u.count := deliver_le _ _
  have hwait : (v.waitTimeout o).2 = { u with count := u.count - (v.deliver o.during).count } := by
    rw [waitTimeout, if_pos hexpires, deliver_count, Nat.zero_add]
  rw [hwait, and_comm, removeEvent_registrations]
  refine and_congr ?_ Iff.rfl
  simp only [removeEvent]
  omega

theorem received_iff (hcount : v.count = 0) (hexpires : v.expires o = false) :
    ((v.waitTimeout o).2.registrations = 0 ∧ (v.waitTimeout o).2.count = 0) ↔
      v.registrations ≤ 1 := by
  have hposted : (v.deliver o.during).count ≠ 0 := by
    intro hzero
    simp [expires, hzero] at hexpires
  have hduring := deliver_conserves v o.during
  have hlate := deliver_conserves (v.deliver o.during) o.late
  have hle := deliver_le (v.deliver o.during) o.late
  have hwait : (v.waitTimeout o).2 = { (v.deliver o.during).deliver o.late with
      count := (v.deliver o.during).count - 1 +
        (((v.deliver o.during).deliver o.late).count - (v.deliver o.during).count) } := by
    rw [waitTimeout, if_neg (by simp [hexpires]), deliver_count]
  have hsame : (v.waitTimeout o).2.registrations =
      ((v.deliver o.during).deliver o.late).registrations := by
    rw [hwait]
    rfl
  rw [hsame, hwait]
  simp only
  omega

theorem registerForEvent_kept (v : AfEvents) (registers : Bool) :
    (v.registerForEvent registers).count = v.count ∧
      (v.registerForEvent registers).world.mComponentState = v.world.mComponentState := by
  rw [registerForEvent]
  split <;> exact ⟨rfl, rfl⟩

theorem scan_completes {t : Focus} (hsettle : settle o t.adapter = settle o s.adapter)
    (hnotified : t.notified = s.notified) (hstarted : afStarted t.adapter = true)
    (hcount : t.events.count = 0) (hvalid : t.invalid = false) :
    ∃ r, Gives (fun n => scan o n t) r ∧ (Completed o s r.2 ↔
      target o s ≠ none ∧ ScanOk o (t.events.registerForEvent o.registers)) := by
  obtain ⟨hkept, hcomponent⟩ := registerForEvent_kept t.events o.registers
  generalize hv : t.events.registerForEvent o.registers = v at hkept hcomponent ⊢
  rw [hcount] at hkept
  have hvalid' : v.world.mComponentState ≠ omxStateInvalid := by
    rw [hcomponent]
    simpa [invalid] using hvalid
  by_cases hstart : o.startFocus ≠ 0
  · refine ⟨(invalidOperation, { t with events := v }), ?_, ?_⟩
    · simp only [scan, hv, if_pos hstart]
      exact .const _
    · exact iff_of_false (not_completed hnotified) fun h => hstart h.2.starts
  obtain ⟨hret, hsem, hworld⟩ := waitTimeout_spec o v
  have hfatal := component_valid_iff hvalid' (o.during ++ o.late)
  rw [← hworld] at hfatal
  by_cases hfailed : (v.waitTimeout o).2.world.mComponentState = omxStateInvalid
  · refine ⟨(einval, { t with events := (v.waitTimeout o).2 }), ?_, ?_⟩
    · simp only [scan, hv, if_neg hstart, invalid, hfailed, decide_true, if_true]
      exact .const _
    · exact iff_of_false (not_completed hnotified) fun h => hfatal.mpr h.2.nonfatal hfailed
  have hnonfatal := hfatal.mp hfailed
  have hscan : ∀ n, scan o n t = if (v.waitTimeout o).1 ≠ noError then
      (returnFocusStatus o n true { t with events := (v.waitTimeout o).2.removeEvent }).map
        fun r => ((v.waitTimeout o).1, r.2)
      else returnFocusStatus o n false { t with events := (v.waitTimeout o).2 } := by
    intro n
    simp only [scan, hv, if_neg hstart, invalid, hfailed, decide_false, Bool.false_eq_true,
      if_false]
  cases hexpires : v.expires o with
  | true =>
    obtain ⟨r, told, hgives, hleft, hlength⟩ := returnFocusStatus_once (o := o)
      (s := { t with events := (v.waitTimeout o).2.removeEvent }) hstarted true nofun
    refine ⟨((v.waitTimeout o).1, r.2), ?_, ?_⟩
    · simp only [hscan, if_pos (hret.mpr hexpires)]
      exact hgives.map fun r => ((v.waitTimeout o).1, r.2)
    · rw [completed_iff_left hleft hsettle hnotified]
      constructor
      · rintro ⟨htarget, -, hend⟩
        refine ⟨htarget, not_not.mp hstart, hnonfatal, ?_, fun _ => (expired_iff hexpires).mp hend⟩
        rw [hexpires]
        exact nofun
      · rintro ⟨htarget, hok⟩
        exact ⟨htarget, hlength, (expired_iff hexpires).mpr (hok.expired hexpires)⟩
  | false =>
    obtain ⟨r, told, hgives, hleft, hlength⟩ := returnFocusStatus_once (o := o)
      (s := { t with events := (v.waitTimeout o).2 }) hstarted false
      fun _ => by simp [invalid, hfailed]
    have hposted : ¬ (v.waitTimeout o).1 ≠ noError := by
      rw [hret, hexpires]
      exact nofun
    refine ⟨r, ?_, ?_⟩
    · simp only [hscan, if_neg hposted]
      exact hgives
    · rw [completed_iff_left hleft hsettle hnotified]
      constructor
      · rintro ⟨htarget, -, hend⟩
        refine ⟨htarget, not_not.mp hstart, hnonfatal,
          fun _ => (received_iff hkept hexpires).mp hend, ?_⟩
        rw [hexpires]
        exact nofun
      · rintro ⟨htarget, hok⟩
        exact ⟨htarget, hlength, (received_iff hkept hexpires).mpr (hok.received hexpires)⟩

/-! ## Requests -/

theorem completes_of_gives {r : Int × Focus} (h : Gives (fun n => doAutoFocus o n s) r) :
    Completes o s ↔ Completed o s r.2 :=
  h.exists_iff (P := fun r => Completed o s r.2)

theorem completes_invalid (hinvalid : s.invalid = true) : Completes o s ↔
    afStarted s.adapter = true ∧ target o s ≠ none ∧ s.events.count = 0 ∧
      AskedOnce o s ∧ s.events.registrations = 0 := by
  have hcall : ∀ n, doAutoFocus o n s =
      (returnFocusStatus o n false s).map fun r => (-einval, r.2) := fun n => if_pos hinvalid
  cases hstarted : afStarted s.adapter with
  | false =>
    have hgives := (returnFocusStatus_unstarted (o := o) hstarted false).map
      fun r => (-einval, r.2)
    simp only [← hcall] at hgives
    rw [completes_of_gives hgives]
    exact iff_of_false (not_completed rfl) fun h => nomatch h.1
  | true =>
    by_cases hfails : ∃ k, (o.getFocus (s.asked + k)).1 ≠ 0
    · obtain ⟨r, told, hret, hleft, hlength⟩ := returnFocusStatus_failed hstarted hinvalid
        (Nat.find_spec hfails) fun i hi => not_not.mp (Nat.find_min hfails hi)
      have hgives := hret.map fun r => (-einval, r.2)
      simp only [← hcall] at hgives
      have honce : told.length = 1 ↔ AskedOnce o s := by
        rw [hlength, AskedOnce]
        by_cases hvideo : target o s = some .video
        · rw [if_pos hvideo]
          exact iff_of_true rfl (.inr ⟨hvideo, hfails⟩)
        · have hzero : Nat.find hfails = 0 ↔ (o.getFocus s.asked).1 ≠ 0 := Nat.find_eq_zero hfails
          rw [if_neg hvideo, Nat.add_eq_right, hzero]
          exact (or_iff_left fun h => hvideo h.1).symm
      rw [completes_of_gives hgives, completed_iff_left hleft rfl rfl, honce]
      tauto
    · push Not at hfails
      refine iff_of_false ?_ ?_
      · rintro ⟨n, r, hr, -⟩
        rw [hcall, returnFocusStatus_forever hstarted hinvalid hfails] at hr
        cases hr
      · rintro ⟨-, -, -, hfirst | ⟨-, n, hlater⟩, -⟩
        · exact hfirst (hfails 0)
        · exact hlater (hfails n)

theorem completes_idle (hvalid : s.invalid = false)
    (hidle : s.events.world.mComponentState ≠ omxStateExecuting) : Completes o s ↔
    afStarted s.adapter = true ∧ target o s ≠ none ∧ s.events.count = 0 ∧
      s.events.registrations = 0 := by
  have hcall : ∀ n, doAutoFocus o n s =
      (returnFocusStatus o n false s).map fun r => (noError, r.2) := by
    intro n
    rw [doAutoFocus, if_neg (by simp [hvalid]), if_pos hidle]
  cases hstarted : afStarted s.adapter with
  | false =>
    have hgives := (returnFocusStatus_unstarted (o := o) hstarted false).map
      fun r => (noError, r.2)
    simp only [← hcall] at hgives
    rw [completes_of_gives hgives]
    exact iff_of_false (not_completed rfl) fun h => nomatch h.1
  | true =>
    obtain ⟨r, told, hret, hleft, hlength⟩ :=
      returnFocusStatus_once (o := o) hstarted false fun _ => hvalid
    have hgives := hret.map fun r => (noError, r.2)
    simp only [← hcall] at hgives
    rw [completes_of_gives hgives, completed_iff_left hleft rfl rfl]
    tauto

theorem prepare_spec (o : Outcomes) (s : Focus) :
    ((prepare o s).2.2.adapter = s.adapter ∧ (prepare o s).2.2.notified = s.notified ∧
      (prepare o s).2.2.events = s.events) ∧
    ((prepare o s).1 ≠ noError ↔
      s.focus = .auto ∧ s.focusLock = false ∧ (o.getFocus s.asked).1 ≠ 0) ∧
    ((s.focus = .auto ∧ (prepare o s).2.1 = .request ∨ s.focus ≠ .auto) ↔ Scans o s) := by
  have hlock : ∀ b, (s.set3ALock b).adapter = s.adapter ∧ (s.set3ALock b).notified = s.notified ∧
      (s.set3ALock b).events = s.events := by
    intro b
    rw [set3ALock]
    split <;> exact ⟨rfl, rfl, rfl⟩
  rw [prepare, Scans]
  cases hlocked : s.focusLock with
  | true => exact ⟨hlock false, by simp, by simp⟩
  | false =>
    by_cases hauto : s.focus = .auto
    · simp only [Bool.false_eq_true, if_false, if_pos hauto]
      refine ⟨⟨rfl, rfl, rfl⟩, ?_, ?_⟩
      · rw [checkFocus_fails]
        simp [hauto]
      · simp [hauto, checkFocus]
    · simp only [Bool.false_eq_true, if_false, if_neg hauto]
      exact ⟨⟨trivial, trivial, trivial⟩, by simp [hauto], by simp [hauto]⟩

theorem completes_executing
    (hexecuting : s.events.world.mComponentState = omxStateExecuting) : Completes o s ↔
    target o s ≠ none ∧ s.events.count = 0 ∧ afStarted (settle o s.adapter) = true ∧
      (s.focus = .auto → s.focusLock = false → (o.getFocus s.asked).1 = 0) ∧
      (¬ Scans o s → s.events.registrations = 0) ∧
      (Scans o s → ScanOk o (s.events.registerForEvent o.registers)) := by
  have hvalid : s.invalid = false := by
    simp [invalid, hexecuting, omxStateExecuting, omxStateInvalid]
  have hcall : ∀ n, doAutoFocus o n s = if s.events.count ≠ 0 then some (noInit, s)
      else focusNow o n { s with adapter := settle o s.adapter } := by
    intro n
    rw [doAutoFocus, if_neg (by simp [hvalid]), if_neg (not_not.mpr hexecuting)]
  by_cases hcount : s.events.count ≠ 0
  · simp only [if_pos hcount] at hcall
    have hgives : Gives (fun n => doAutoFocus o n s) (noInit, s) := by
      simp only [hcall]
      exact .const _
    rw [completes_of_gives hgives]
    exact iff_of_false (not_completed rfl) fun h => hcount h.2.1
  simp only [if_neg hcount, focusNow] at hcall
  cases hstarted : afStarted (settle o s.adapter) with
  | false =>
    simp only [hstarted, Bool.not_false, if_true] at hcall
    have hgives : Gives (fun n => doAutoFocus o n s)
        (noError, { s with adapter := settle o s.adapter }) := by
      simp only [hcall]
      exact .const _
    rw [completes_of_gives hgives]
    exact iff_of_false (not_completed rfl) fun h => nomatch h.2.2.1
  | true =>
    simp only [hstarted, Bool.not_true, Bool.false_eq_true, if_false] at hcall
    generalize hu : pauseFaceDetection { s with adapter := settle o s.adapter } true = u
      at hcall
    have hpaused : u.adapter = settle o s.adapter ∧ u.notified = s.notified ∧
        u.events = s.events ∧ u.focus = s.focus ∧ u.focusLock = s.focusLock ∧
        u.asked = s.asked := by
      rw [← hu, pauseFaceDetection]
      split <;> exact ⟨rfl, rfl, rfl, rfl, rfl, rfl⟩
    obtain ⟨hadapter, hnotified, hevents, hfocus, hlock, hasked⟩ := hpaused
    obtain ⟨⟨hadapter', hnotified', hevents'⟩, hret, hscans⟩ := prepare_spec o u
    have hsame : Scans o u ↔ Scans o s := by rw [Scans, Scans, hfocus, hlock, hasked]
    rw [hfocus, hlock, hasked] at hret
    rw [hfocus, hsame] at hscans
    rw [hnotified] at hnotified'
    rw [hevents] at hevents'
    have hsettle : settle o (prepare o u).2.2.adapter = settle o s.adapter := by
      rw [hadapter', hadapter, settle_free (settle_locked o s.adapter)]
    have hstarted' : afStarted (prepare o u).2.2.adapter = true := by
      rw [hadapter', hadapter]
      exact hstarted
    have hvalid' : (prepare o u).2.2.invalid = false := by
      rw [invalid, hevents']
      exact hvalid
    by_cases hcheck : (prepare o u).1 ≠ noError
    · have hgives : Gives (fun n => doAutoFocus o n s) ((prepare o u).1, (prepare o u).2.2) := by
        simp only [hcall, if_pos hcheck]
        exact .const _
      rw [completes_of_gives hgives]
      refine iff_of_false (not_completed hnotified') fun h => ?_
      obtain ⟨hauto, hfree, herror⟩ := hret.mp hcheck
      exact herror (h.2.2.2.1 hauto hfree)
    · have hok : s.focus = .auto → s.focusLock = false → (o.getFocus s.asked).1 = 0 :=
        fun hauto hfree => not_not.mp fun herror => hcheck (hret.mpr ⟨hauto, hfree, herror⟩)
      simp only [if_neg hcheck] at hcall
      by_cases hscan : Scans o s
      · simp only [if_pos (hscans.mpr hscan)] at hcall
        obtain ⟨r, hgives, hiff⟩ := scan_completes hsettle hnotified' hstarted'
          (by rw [hevents']; exact not_not.mp hcount) hvalid'
        simp only [← hcall] at hgives
        rw [completes_of_gives hgives, hiff, hevents']
        constructor
        · rintro ⟨htarget, hend⟩
          exact ⟨htarget, not_not.mp hcount, rfl, hok, fun hno => absurd hscan hno,
            fun _ => hend⟩
        · rintro ⟨htarget, -, -, -, -, hend⟩
          exact ⟨htarget, hend hscan⟩
      · simp only [if_neg (mt hscans.mp hscan)] at hcall
        obtain ⟨r, told, hgives, hleft, hlength⟩ :=
          returnFocusStatus_once (o := o) hstarted' false fun _ => hvalid'
        have hpending : Left o (prepare o u).2.2 told { r.2 with pendingFocus := true } :=
          ⟨hleft.locked, hleft.state, hleft.notified, hleft.face, hleft.events⟩
        have hall := hgives.map fun r => (r.1, { r.2 with pendingFocus := true })
        simp only [← hcall] at hall
        rw [completes_of_gives hall, completed_iff_left hpending hsettle hnotified', hevents']
        constructor
        · rintro ⟨htarget, -, hnone, hzero⟩
          exact ⟨htarget, hzero, rfl, hok, fun _ => hnone, fun hyes => absurd hyes hscan⟩
        · rintro ⟨htarget, hzero, -, -, hnone, -⟩
          exact ⟨htarget, hlength, hnone hscan, hzero⟩

/-! ## When a request is completed -/

theorem afStarted_of_settle {a : Adapter} (h : afStarted (settle o a) = true) :
    afStarted a = true := by
  rw [settle] at h
  split at h
  · split at h
    · simp only [afStarted, commitState, Bool.or_self] at h
      simp [afStarted, h]
    · simp only [afStarted, rollbackState, Bool.or_self] at h
      simp [afStarted, h]
  · exact h

/-- For every state of the adapter and of the component and every outcome of the calls. -/
theorem autofocus_completes_iff (o : Outcomes) (s : Focus) : Completes o s ↔ FocusOk o s := by
  by_cases hexecuting : s.events.world.mComponentState = omxStateExecuting
  · rw [completes_executing hexecuting]
    have hvalid : s.invalid = false := by
      simp [invalid, hexecuting, omxStateExecuting, omxStateInvalid]
    constructor
    · rintro ⟨htarget, hcount, hrest⟩
      exact ⟨afStarted_of_settle hrest.1, htarget, hcount, fun h => absurd h (by simp [hvalid]),
        fun h => absurd hexecuting h, fun _ => hrest⟩
    · intro h
      exact ⟨h.cancels, h.count, h.executing hexecuting⟩
  cases hinvalid : s.invalid with
  | true =>
    rw [completes_invalid hinvalid]
    constructor
    · rintro ⟨hstarted, htarget, hcount, honce, hnone⟩
      exact ⟨hstarted, htarget, hcount, fun _ => honce, fun _ => hnone,
        fun h => absurd h hexecuting⟩
    · intro h
      exact ⟨h.started, h.cancels, h.count, h.invalid hinvalid, h.idle hexecuting⟩
  | false =>
    rw [completes_idle hinvalid hexecuting]
    constructor
    · rintro ⟨hstarted, htarget, hcount, hnone⟩
      exact ⟨hstarted, htarget, hcount, fun h => absurd h (by simp [hinvalid]), fun _ => hnone,
        fun h => absurd h hexecuting⟩
    · intro h
      exact ⟨h.started, h.cancels, h.count, h.idle hexecuting⟩

/-- An executing component that is about to scan, with the adapter in the AF state. -/
def scanning : Focus :=
  { adapter := { state := .af, next := .af }
    events :=
      { world := start omxStateExecuting true
        mHandleComp := 1
        mDoAFSem := ⟨0x100, by decide⟩
        count := 0 }
    mFaceDetectionRunning := true
    mFaceDetectionPaused := false
    focus := .autoLock
    focusLock := false }

/-- The component does not take the focus mode, here with OMX_ErrorBadParameter. -/
def refused : Outcomes :=
  { commits := true
    getFocus := fun _ => (0, .request)
    registers := true
    startFocus := 0x80001005
    during := []
    timedOut := true
    late := [] }

/-- It returns with the adapter still in the AF state, nobody told, the face detection paused and
the registration left. And a component that has failed and still tells the focus status keeps
`returnFocusStatus` calling itself. -/
theorem autofocus_not_completed :
    (∃ s', doAutoFocus refused 2 scanning = some (invalidOperation, s') ∧
      s'.adapter.state = .af ∧ s'.notified = [] ∧ s'.mFaceDetectionPaused = true ∧
      s'.events.registrations = 1) ∧
    ¬ Completes refused scanning ∧
    let failed : Focus := { scanning with events :=
      { scanning.events with world := start omxStateInvalid true } }
    ∀ fuel, doAutoFocus refused fuel failed = none := by
  refine ⟨⟨_, rfl, rfl, rfl, rfl, by decide⟩, ?_, ?_⟩
  · rintro ⟨fuel, r, hr, hdone⟩
    cases hr
    refine absurd hdone (not_completed ?_)
    rfl
  · intro failed fuel
    have hcall : doAutoFocus refused fuel failed =
        (returnFocusStatus refused fuel false failed).map fun r => (-einval, r.2) := rfl
    rw [hcall, returnFocusStatus_forever rfl rfl fun _ => rfl]
    rfl

end Omap4Hal.Camera.AutoFocus

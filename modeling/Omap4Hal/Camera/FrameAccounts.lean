import Omap4Hal.Camera.CallbackNotifier

/- The accounts of the frames in all interleavings (`frames_accounted_iff`). Each step is compared
   with the books: a step that is not orderly loses a frame, returns another one, releases
   something twice or never, keeps `mRecordingLock`, or looks up a key that is not there. -/
namespace Omap4Hal.Camera.CallbackNotifier
open Lib
open State
open List (append_nil count_append count_nil flatMap_append flatMap_cons flatMap_singleton
  length_append map_append map_cons map_nil mem_append mem_singleton)
open Encoder
open CameraFrame

variable {s s' : State} {e : Encoder} {rest : List Encoder}

structure Inv (s : State) : Prop extends Accounted s where
  encoding : ∀ e ∈ s.encoders, e.place = .encoding → e.canceled = false
  mems : ∀ r ∈ s.recordingFrames, r.mem ≠ 0
  unlocked : s.mRecordingLock = false

/-! ## The notification thread -/

variable {f : CameraFrame} {buffer : Nat}

theorem Inv.returned (h : Inv s) (hf : s.notifying = .processing f) :
    Inv ({ s with notifying := .idle }.returnFrame f.mBuffer f.mFrameType) := by
  refine ⟨⟨h.different, ?_, h.outputs, h.exifs, fun _ => h.unlocked, h.assertions⟩, h.encoding,
    h.mems, h.unlocked⟩
  rw [balanced_iff_count]
  intro x
  have hbooks := balanced_iff_count.mp h.frames x
  simp only [inProcess, withApplication, returnFrame, hf, Notifying.frames,
    count_append, count_nil, ident] at hbooks ⊢
  omega

theorem Inv.startEncoder (h : Inv s) (hf : s.notifying = .processing f) (a : Allocations) :
    Inv (s.startEncoder f a) := by
  refine ⟨⟨h.different, ?_, ?_, ?_, fun _ => h.unlocked, h.assertions⟩, ?_, h.mems, h.unlocked⟩
  · rw [balanced_iff_count]
    intro x
    have hbooks := balanced_iff_count.mp h.frames x
    simp only [inProcess, withApplication, State.startEncoder, hf, Notifying.frames,
      count_append, count_nil, ident, flatMap_append,
      flatMap_singleton, Encoder.frames] at hbooks ⊢
    simp only [Bool.false_eq_true, and_false, if_false]
    omega
  · simp only [State.startEncoder, flatMap_append, flatMap_singleton,
      liveOutput]
    exact h.outputs.takeAll _
  · simp only [State.startEncoder, flatMap_append, flatMap_singleton, liveExif]
    exact h.exifs.takeAll _
  · intro e he hplace
    rcases mem_append.mp he with he | he
    · exact h.encoding e he hplace
    · rw [mem_singleton.mp he]

theorem not_accounted_of_lost (h : Accounted s) {x : Nat × FrameType} (hgiven : s'.given = s.given)
    (hlost : s'.returned.count x + (s'.inProcess ++ s'.withApplication).count x <
      s.returned.count x + (s.inProcess ++ s.withApplication).count x) : ¬ Accounted s' := by
  intro h'
  have hbooks := balanced_iff_count.mp h.frames x
  have hbooks' := balanced_iff_count.mp h'.frames x
  rw [hgiven] at hbooks'
  omega

theorem Inv.handOver (h : Inv s) (hf : s.notifying = .processing f)
    (hvideo : f.mFrameType = .videoFrameSync) {mem : Nat} (hmem : mem ≠ 0) :
    Inv (s.handOver f mem) := by
  refine ⟨⟨h.different, ?_, h.outputs, h.exifs, fun _ => h.unlocked, h.assertions⟩, h.encoding,
    ?_, h.unlocked⟩
  · rw [balanced_iff_count]
    intro x
    have hbooks := balanced_iff_count.mp h.frames x
    simp only [inProcess, withApplication, State.handOver, hf, Notifying.frames,
      count_append, count_nil, ident, hvideo, map_append,
      map_cons, map_nil] at hbooks ⊢
    omega
  · intro r hr
    rcases mem_append.mp hr with hr | hr
    · exact h.mems r hr
    · rw [mem_singleton.mp hr]
      exact hmem

theorem skipUnlock_not (s : State) : ¬ Accounted s.skipUnlock := fun h =>
  nomatch h.lock nofun

theorem failLocked_not (s : State) : ¬ Accounted s.failLocked := fun h =>
  nomatch h.assertions

/-- The recording: it hands the frame over, or loses it or keeps the lock. -/
theorem recordFrame_spec (h : Inv s) (hf : s.notifying = .processing f)
    (hvideo : f.mFrameType = .videoFrameSync) (a : Allocations) :
    ∃ s', s.recordFrame f a = some s' ∧ (Recordable s f a → Inv s') ∧
      (¬ Recordable s f a → ¬ Accounted s') := by
  rw [recordFrame, if_neg (by simp [h.unlocked])]
  by_cases hrec : s.mRecording = true
  swap
  · refine ⟨_, if_pos (by simpa using hrec), fun hok => absurd hok.recording hrec, fun _ => ?_⟩
    refine not_accounted_of_lost h.toAccounted (x := f.ident) rfl ?_
    simp [inProcess, withApplication, hf, Notifying.frames, count_append]
  rw [if_neg (by simp [hrec])]
  by_cases hmeta : s.config.mUseMetaDataBufferMode = true
  · rw [if_pos hmeta]
    cases hdata : s.mVideoMetadataBufferMemoryMap.valueFor f.mBuffer with
    | none =>
      refine ⟨_, rfl, fun hok => ?_, fun _ => failLocked_not s⟩
      obtain ⟨data, hsome, -⟩ := hok.metadata hmeta
      rw [hdata] at hsome
      cases hsome
    | some data =>
      by_cases hnull : data = 0 ∨ f.mBuffer = 0
      · refine ⟨_, if_pos hnull, fun hok => ?_, fun _ => skipUnlock_not s⟩
        obtain ⟨data', hsome, hne⟩ := hok.metadata hmeta
        cases hdata.symm.trans hsome
        exact absurd hnull (not_or.mpr ⟨hne, hok.buffer⟩)
      · obtain ⟨hne, hbuffer⟩ := not_or.mp hnull
        simp only [if_neg hnull]
        by_cases hmap : s.config.mUseVideoBuffers = true ∧ s.mVideoMap.valueFor f.mBuffer = none
        · refine ⟨_, if_pos hmap, fun hok => ?_, fun _ => failLocked_not s⟩
          exact absurd hmap.2 (hok.videoBuffer hmeta hmap.1)
        · refine ⟨_, if_neg hmap, fun _ => h.handOver hf hvideo hne, fun hnot => ?_⟩
          refine absurd ⟨hrec, hbuffer, fun _ => ⟨data, hdata, hne⟩, ?_, ?_⟩ hnot
          · exact fun _ huse hnone => hmap ⟨huse, hnone⟩
          · exact fun hno => absurd hmeta (by simp [hno])
  · rw [if_neg hmeta]
    have hno : s.config.mUseMetaDataBufferMode = false := Bool.of_not_eq_true hmeta
    by_cases hnull : (!a.fakebuf.hasData) = true ∨ f.mBuffer = 0
    · refine ⟨_, if_pos hnull, fun hok => ?_, fun _ => skipUnlock_not s⟩
      exact absurd hnull (not_or.mpr ⟨by simp [hok.fakebuf hno], hok.buffer⟩)
    · obtain ⟨hfake, hbuffer⟩ := not_or.mp hnull
      refine ⟨_, if_neg hnull, fun _ => h.handOver hf hvideo hbuffer, fun hnot => ?_⟩
      refine absurd ⟨hrec, hbuffer, fun hyes => absurd hyes hmeta, fun hyes => absurd hyes hmeta,
        fun _ => ?_⟩ hnot
      simpa using hfake

theorem branch_video {c : Config} {enabled : CameraMsg → Bool} (h : c.branch f enabled = .video) :
    f.mFrameType = .videoFrameSync := by
  rw [Config.branch] at h
  split at h
  · cases h
  split at h
  · cases h
  split at h
  · cases h
  split at h
  · next hvideo => exact hvideo.1
  split at h
  · cases h
  split at h
  · cases h
  split at h <;> cases h

theorem notifyFrame_spec (h : Inv s) (a : Allocations) :
    ∃ s', s.notifyFrame a = some s' ∧ (Orderly s (.notifyFrame a) → Inv s') ∧
      (¬ Orderly s (.notifyFrame a) → ¬ Accounted s') := by
  cases hn : s.notifying with
  | idle =>
    have horderly : Orderly s (.notifyFrame a) := fun f hf => nomatch hn.symm.trans hf
    cases hq : s.mFrameQ with
    | nil =>
      refine ⟨s, ?_, fun _ => h, fun hnot => absurd horderly hnot⟩
      rw [State.notifyFrame, hn]
      simp only [hq]
    | cons f q =>
      refine ⟨{ s with mFrameQ := q, notifying := .processing f }, ?_, fun _ => ?_,
        fun hnot => absurd horderly hnot⟩
      · rw [State.notifyFrame, hn]
        simp only [hq]
      · refine ⟨⟨h.different, ?_, h.outputs, h.exifs, fun _ => h.unlocked, h.assertions⟩,
          h.encoding, h.mems, h.unlocked⟩
        rw [balanced_iff_count]
        intro x
        have hbooks := balanced_iff_count.mp h.frames x
        simp only [inProcess, withApplication, hn, hq, Notifying.frames,
          count_append, count_nil, map_cons, List.count_cons] at hbooks ⊢
        omega
  | processing f =>
    have hstep : s.notifyFrame a = s.process f a := by rw [State.notifyFrame, hn]
    have hiff : Orderly s (.notifyFrame a) ↔
        (s.config.branch f a.enabled = .video → Recordable s f a) := by
      constructor
      · exact fun horderly => horderly f hn
      · intro hok f' hf'
        obtain rfl : f = f' := Notifying.processing.inj (hn.symm.trans hf')
        exact hok
    rw [hstep, hiff, process]
    cases hbranch : s.config.branch f a.enabled with
    | video =>
      obtain ⟨s', hs', hgood, hbad⟩ := recordFrame_spec h hn (branch_video hbranch) a
      exact ⟨s', hs', fun hok => hgood (hok rfl), fun hnot => hbad fun hok => hnot fun _ => hok⟩
    | encode => exact ⟨_, rfl, fun _ => h.startEncoder hn a, fun hnot => absurd nofun hnot⟩
    | raw =>
      refine ⟨_, ?_, fun _ => h.returned hn, fun hnot => absurd nofun hnot⟩
      exact ite_self _
    | snapshot =>
      refine ⟨_, ?_, fun _ => h.returned hn, fun hnot => absurd nofun hnot⟩
      exact ite_self _
    | preview =>
      refine ⟨_, ?_, fun _ => h.returned hn, fun hnot => absurd nofun hnot⟩
      exact ite_self _
    | _ => exact ⟨_, rfl, fun _ => h.returned hn, fun hnot => absurd nofun hnot⟩
  | adding cookies =>
    have horderly : Orderly s (.notifyFrame a) := fun f hf => nomatch hn.symm.trans hf
    refine ⟨{ s with
      gEncoderQueue := s.gEncoderQueue.add cookies.buffer cookies
      notifying := .idle }, ?_, fun _ => ?_, fun hnot => absurd horderly hnot⟩
    · rw [State.notifyFrame, hn]
    · refine ⟨⟨h.different, ?_, h.outputs, h.exifs, fun _ => h.unlocked, h.assertions⟩,
        h.encoding, h.mems, h.unlocked⟩
      have hbooks := h.frames
      simp only [inProcess, withApplication, hn, Notifying.frames] at hbooks ⊢
      exact hbooks

/-! ## The encoders -/

theorem count_encoders {β : Type} [BEq β] [LawfulBEq β] (hperm : s.encoders.Perm (e :: rest))
    (g : Encoder → List β) (x : β) :
    (s.encoders.flatMap g).count x = (g e).count x + (rest.flatMap g).count x := by
  rw [(hperm.flatMap_right g).count_eq, flatMap_cons, count_append]

theorem Encoder.frames_eq (h : e.place ≠ .encoding) : e.frames = [(e.buffer, e.type)] :=
  if_neg fun hboth => h hboth.1

theorem Inv.goesOn (h : Inv s) (hperm : s.encoders.Perm (e :: rest)) (e' : Encoder)
    (rel del : List Nat) (hframes : e'.frames = e.frames)
    (hrel : e.liveOutput = rel ++ e'.liveOutput)
    (hdel : e.liveExif = del ++ e'.liveExif) (hplace : e'.place ≠ .encoding)
    (queue : KeyedVector Nat Cookies) :
    Inv { s with
      encoders := rest ++ [e']
      gEncoderQueue := queue
      released := s.released ++ rel
      deleted := s.deleted ++ del } := by
  refine ⟨⟨h.different, ?_, ?_, ?_, fun _ => h.unlocked, h.assertions⟩, ?_, h.mems, h.unlocked⟩
  · rw [balanced_iff_count]
    intro x
    have hbooks := balanced_iff_count.mp h.frames x
    have hsplit := count_encoders hperm Encoder.frames x
    simp only [inProcess, withApplication, count_append, flatMap_append,
      flatMap_singleton, hframes] at hbooks ⊢
    omega
  · rw [balanced_iff_count]
    intro x
    have hbooks := balanced_iff_count.mp h.outputs x
    have hsplit := count_encoders hperm liveOutput x
    simp only [hrel, count_append, flatMap_append, flatMap_singleton] at hsplit ⊢
    omega
  · rw [balanced_iff_count]
    intro x
    have hbooks := balanced_iff_count.mp h.exifs x
    have hsplit := count_encoders hperm liveExif x
    simp only [hdel, count_append, flatMap_append, flatMap_singleton] at hsplit ⊢
    omega
  · intro d hd henc
    rcases mem_append.mp hd with hd | hd
    · exact h.encoding d (hperm.mem_iff.mpr (List.mem_cons_of_mem _ hd)) henc
    · rw [mem_singleton.mp hd] at henc
      exact absurd henc hplace

theorem Inv.moves (h : Inv s) (hperm : s.encoders.Perm (e :: rest)) (p : Place)
    (hframes : Encoder.frames { e with place := p } = e.frames)
    (hrel : e.liveOutput = liveOutput { e with place := p })
    (hdel : e.liveExif = liveExif { e with place := p }) (hplace : p ≠ .encoding)
    (queue : KeyedVector Nat Cookies) :
    Inv ({ s with encoders := rest, gEncoderQueue := queue }.put { e with place := p }) := by
  have hgo := h.goesOn hperm { e with place := p } [] [] hframes hrel hdel hplace queue
  simp only [append_nil] at hgo
  exact hgo

theorem Inv.ends (h : Inv s) (hperm : s.encoders.Perm (e :: rest)) (hplace : e.place = .returning) :
    Inv ({ s with encoders := rest }.returnFrame e.buffer e.type) := by
  have hframes := e.frames_eq (by simp [hplace])
  refine ⟨⟨h.different, ?_, ?_, ?_, fun _ => h.unlocked, h.assertions⟩, ?_, h.mems, h.unlocked⟩
  · rw [balanced_iff_count]
    intro x
    have hbooks := balanced_iff_count.mp h.frames x
    have hsplit := count_encoders hperm Encoder.frames x
    simp only [inProcess, withApplication, returnFrame, count_append,
      hframes] at hbooks hsplit ⊢
    omega
  · rw [balanced_iff_count]
    intro x
    have hbooks := balanced_iff_count.mp h.outputs x
    have hsplit := count_encoders hperm liveOutput x
    simp only [liveOutput, hplace, count_nil, returnFrame] at hsplit ⊢
    rw [hbooks, hsplit]
    omega
  · rw [balanced_iff_count]
    intro x
    have hbooks := balanced_iff_count.mp h.exifs x
    have hsplit := count_encoders hperm liveExif x
    simp only [liveExif, hplace, count_nil, returnFrame] at hsplit ⊢
    rw [hbooks, hsplit]
    omega
  · intro d hd
    exact h.encoding d (hperm.mem_iff.mpr (List.mem_cons_of_mem _ hd))

theorem not_accounted_of_dropped (h : Accounted s) (hperm : s.encoders.Perm (e :: rest))
    (hplace : e.place ≠ .encoding) {returned : List (Nat × FrameType)}
    (hother : returned.count (e.buffer, e.type) = s.returned.count (e.buffer, e.type)) :
    ¬ Accounted { s with encoders := rest, returned := returned } := by
  refine not_accounted_of_lost h (x := (e.buffer, e.type)) rfl ?_
  have hsplit := count_encoders hperm Encoder.frames (e.buffer, e.type)
  rw [e.frames_eq hplace, List.count_singleton_self] at hsplit
  simp only [inProcess, withApplication, count_append]
  omega

theorem turn_spec (h : Inv s) (hperm : s.encoders.Perm (e :: rest)) (jpegSize : Nat) :
    (TurnOk s e → Inv ({ s with encoders := rest }.turn e jpegSize)) ∧
      (¬ TurnOk s e → ¬ Accounted ({ s with encoders := rest }.turn e jpegSize)) := by
  have hmem : e ∈ s.encoders := hperm.mem_iff.mpr List.mem_cons_self
  have hok : ∀ p, e.place = p → p ≠ .testing → p ≠ .releasing → p ≠ .looking → p ≠ .returning →
      TurnOk s e := by
    rintro p rfl htest hrelease hlook hreturn
    exact ⟨fun hp => absurd hp htest, fun hp => absurd hp hrelease, fun hp => absurd hp hlook,
      fun hp => absurd hp hreturn⟩
  have hframes : ∀ e' : Encoder, e'.buffer = e.buffer → e'.type = e.type →
      e'.place ≠ .encoding → e.place ≠ .encoding → e'.frames = e.frames := by
    intro e' hbuffer htype hplace' hplace
    rw [e'.frames_eq hplace', e.frames_eq hplace, hbuffer, htype]
  rw [turn]
  cases hplace : e.place with
  | encoding =>
    refine ⟨fun _ => ?_, fun hnot => absurd (hok _ hplace nofun nofun nofun nofun) hnot⟩
    have hcancel := h.encoding e hmem hplace
    rw [if_neg (by simp [hcancel])]
    exact h.moves hperm .completing
      (by simp [Encoder.frames, hcancel]) (by simp [liveOutput, hplace])
      (by simp [liveExif, hplace]) nofun s.gEncoderQueue
  | completing =>
    refine ⟨fun _ => ?_, fun hnot => absurd (hok _ hplace nofun nofun nofun nofun) hnot⟩
    by_cases hcopy : e.mainJpeg ∧ e.output.hasData ∧ 0 < jpegSize ∧ e.cookie2 ≠ 0
    · have hgo := h.goesOn hperm { e with place := .testing, cookie2 := 0 } [] [e.buffer]
        (hframes _ rfl rfl nofun (by simp [hplace])) (by simp [liveOutput, hplace])
        (by simp [liveExif, hplace, hcopy.2.2.2]) nofun s.gEncoderQueue
      simp only [append_nil] at hgo
      simp only [if_pos hcopy]
      exact hgo
    · simp only [if_neg hcopy]
      exact h.moves hperm .testing
        (hframes _ rfl rfl nofun (by simp [hplace])) (by simp [liveOutput, hplace])
        (by simp [liveExif, hplace]) nofun s.gEncoderQueue
  | testing =>
    by_cases hstarted : s.mNotifierState = .started
    · refine ⟨fun _ => ?_, fun hnot => ?_⟩
      · simp only [if_pos hstarted]
        exact h.moves hperm .releasing
          (hframes _ rfl rfl nofun (by simp [hplace])) (by simp [liveOutput, hplace])
          (by simp [liveExif, hplace]) nofun s.gEncoderQueue
      · refine absurd ⟨fun _ => hstarted, ?_, ?_, ?_⟩ hnot <;> simp [hplace]
    · simp only [if_neg hstarted]
      exact ⟨fun hgood => absurd (hgood.testing hplace) hstarted,
        fun _ => not_accounted_of_dropped h.toAccounted hperm (by simp [hplace]) rfl⟩
  | releasing =>
    by_cases hhas : e.mainJpeg = true ∧ e.output.isSome = true
    · refine ⟨fun _ => ?_, fun hnot => ?_⟩
      · have hgo := h.goesOn hperm { e with place := .deleting } [e.buffer] []
          (hframes _ rfl rfl nofun (by simp [hplace]))
          (by simp [liveOutput, hplace, hhas.2])
          (by simp [liveExif, hplace]) nofun s.gEncoderQueue
        simp only [append_nil] at hgo
        simp only [if_pos hhas]
        exact hgo
      · refine absurd ⟨?_, fun _ _ => hhas.1, ?_, ?_⟩ hnot <;> simp [hplace]
    · simp only [if_neg hhas]
      by_cases hsome : e.output.isSome = true
      · refine ⟨fun hgood => absurd ⟨hgood.releasing hplace hsome, hsome⟩ hhas, fun _ h' => ?_⟩
        -- the memory is not released, and the thread does not have it any more
        have hbooks := balanced_iff_count.mp h.outputs e.buffer
        have hbooks' := balanced_iff_count.mp h'.outputs e.buffer
        have hsplit := count_encoders hperm liveOutput e.buffer
        simp only [put, flatMap_append, flatMap_singleton, liveOutput,
          hplace, hsome, if_true, count_append, count_nil, List.count_singleton_self]
          at hbooks' hsplit
        omega
      · refine ⟨fun _ => ?_, fun hnot => ?_⟩
        · exact h.moves hperm .deleting
            (hframes _ rfl rfl nofun (by simp [hplace]))
            (by simp [liveOutput, hplace, hsome])
            (by simp [liveExif, hplace]) nofun s.gEncoderQueue
        · refine absurd ⟨?_, fun _ hyes => absurd hyes hsome, ?_, ?_⟩ hnot <;> simp [hplace]
  | deleting =>
    refine ⟨fun _ => ?_, fun hnot => absurd (hok _ hplace nofun nofun nofun nofun) hnot⟩
    by_cases hexif : e.cookie2 ≠ 0
    · have hgo := h.goesOn hperm { e with place := .looking, cookie2 := 0 } [] [e.buffer]
        (hframes _ rfl rfl nofun (by simp [hplace])) (by simp [liveOutput, hplace])
        (by simp [liveExif, hplace, hexif]) nofun s.gEncoderQueue
      simp only [append_nil] at hgo
      simp only [if_pos hexif]
      exact hgo
    · simp only [if_neg hexif]
      exact h.moves hperm .looking
        (hframes _ rfl rfl nofun (by simp [hplace])) (by simp [liveOutput, hplace])
        (by simp [liveExif, hplace, hexif]) nofun s.gEncoderQueue
  | looking =>
    cases hfound : s.gEncoderQueue.valueFor e.src with
    | none =>
      exact ⟨fun hgood => absurd hfound (hgood.looking hplace), fun _ h' => nomatch h'.assertions⟩
    | some cookies =>
      refine ⟨fun _ => ?_, fun hnot => ?_⟩
      · exact h.moves hperm .removing
          (hframes _ rfl rfl nofun (by simp [hplace])) (by simp [liveOutput, hplace])
          (by simp [liveExif, hplace]) nofun s.gEncoderQueue
      · refine absurd ⟨?_, ?_, fun _ => by simp [hfound], ?_⟩ hnot <;> simp [hplace]
  | removing =>
    refine ⟨fun _ => ?_, fun hnot => absurd (hok _ hplace nofun nofun nofun nofun) hnot⟩
    exact h.moves hperm .returning
      (hframes _ rfl rfl nofun (by simp [hplace])) (by simp [liveOutput, hplace])
      (by simp [liveExif, hplace]) nofun (s.gEncoderQueue.remove e.src)
  | returning =>
    by_cases hsrc : e.src = e.buffer
    · refine ⟨fun _ => ?_, fun hnot => ?_⟩
      · simp only [hsrc]
        exact h.ends hperm hplace
      · refine absurd ⟨?_, ?_, ?_, fun _ => hsrc⟩ hnot <;> simp [hplace]
    · refine ⟨fun hgood => absurd (hgood.returning hplace) hsrc, fun _ => ?_⟩
      refine not_accounted_of_dropped h.toAccounted hperm (by simp [hplace]) ?_
      rw [count_append, List.count_singleton, if_neg (by simpa using hsrc), Nat.add_zero]

theorem encoderStep_spec (h : Inv s) {jpegSize : Nat}
    (hstep : s.encoderStep buffer jpegSize = some s') :
    (Orderly s (.encoder buffer jpegSize) → Inv s') ∧
      (¬ Orderly s (.encoder buffer jpegSize) → ¬ Accounted s') := by
  obtain ⟨⟨e, rest⟩, htake, rfl⟩ := Option.map_eq_some_iff.mp hstep
  obtain ⟨hgood, hbad⟩ := turn_spec h (perm_of_takeFirst htake) jpegSize
  refine ⟨fun horderly => hgood (horderly e rest htake), fun hnot => hbad fun hok => hnot ?_⟩
  intro e' rest' htake'
  cases htake.symm.trans htake'
  exact hok

/-! ## stop -/

/-- An encoder as `stop` leaves it that cancels the encoder of `buffer`. -/
def cancelOf (buffer : Nat) (e : Encoder) : Encoder :=
  if e.buffer = buffer then { e with canceled := true } else e

theorem cancelOf_live (buffer : Nat) (e : Encoder) :
    (cancelOf buffer e).liveOutput = e.liveOutput ∧ (cancelOf buffer e).liveExif = e.liveExif ∧
      (cancelOf buffer e).place = e.place := by
  rw [cancelOf]
  split <;> exact ⟨rfl, rfl, rfl⟩

theorem cancelOf_frames (h : e.buffer = buffer → e.place ≠ .encoding) :
    (cancelOf buffer e).frames = e.frames := by
  rw [cancelOf]
  split
  · next heq => simp [Encoder.frames, h heq]
  · rfl

theorem flatMap_cancelOf {β : Type} {g : Encoder → List β} {es : List Encoder}
    (h : ∀ e ∈ es, g (cancelOf buffer e) = g e) :
    (es.map (cancelOf buffer)).flatMap g = es.flatMap g := by
  rw [List.flatMap_map]
  exact List.flatMap_congr h

theorem cancelOf_length {es : List Encoder} (hmem : e ∈ es) (hbuffer : e.buffer = buffer)
    (hplace : e.place = .encoding) (hcancel : e.canceled = false) :
    ((es.map (cancelOf buffer)).flatMap Encoder.frames).length <
      (es.flatMap Encoder.frames).length := by
  have hle : ∀ d : Encoder, (cancelOf buffer d).frames.length ≤ d.frames.length := by
    intro d
    by_cases hd : d.place = .encoding
    · rw [cancelOf]
      split
      · simp [Encoder.frames, hd]
      · exact Nat.le_refl _
    · rw [cancelOf_frames fun _ => hd]
  have hsum : ∀ ds : List Encoder, ((ds.map (cancelOf buffer)).flatMap Encoder.frames).length ≤
      (ds.flatMap Encoder.frames).length := by
    intro ds
    induction ds with
    | nil => exact Nat.le_refl _
    | cons d ds ih =>
      rw [map_cons, flatMap_cons, flatMap_cons, length_append,
        length_append]
      exact Nat.add_le_add (hle d) ih
  have hone : (cancelOf buffer e).frames.length < e.frames.length := by
    simp [cancelOf, hbuffer, Encoder.frames, hplace, hcancel]
  obtain ⟨as, bs, rfl⟩ := List.append_of_mem hmem
  have has := hsum as
  have hbs := hsum bs
  simp only [map_append, map_cons, flatMap_append, flatMap_cons,
    length_append]
  omega

theorem stopStep_spec (h : Inv s) (hstep : s.stopStep = some s') :
    (StopOk s → Inv s') ∧ (¬ StopOk s → ¬ Accounted s') := by
  rw [State.stopStep] at hstep
  rw [StopOk]
  cases hs : s.stopping with
  | idle =>
    rw [hs] at hstep
    cases hstep
  | looking =>
    simp only [hs] at hstep
    cases hentries : s.gEncoderQueue.entries with
    | nil =>
      simp only [hentries, Option.some.injEq] at hstep
      subst hstep
      refine ⟨fun _ => ⟨⟨h.different, h.frames, h.outputs, h.exifs, h.lock, h.assertions⟩,
        h.encoding, h.mems, h.unlocked⟩, fun hnot => absurd ?_ hnot⟩
      exact fun p hp => absurd hp (by simp)
    | cons p entries =>
      obtain ⟨k, cookies⟩ := p
      simp only [hentries, Option.some.injEq] at hstep
      subst hstep
      have houtputs : (s.encoders.map (cancelOf cookies.buffer)).flatMap liveOutput =
          s.encoders.flatMap liveOutput :=
        flatMap_cancelOf fun e _ => (cancelOf_live cookies.buffer e).1
      have hexifs : (s.encoders.map (cancelOf cookies.buffer)).flatMap liveExif =
          s.encoders.flatMap liveExif :=
        flatMap_cancelOf fun e _ => (cancelOf_live cookies.buffer e).2.1
      constructor
      · intro hok
        have hready : ∀ e ∈ s.encoders, e.buffer = cookies.buffer → e.place ≠ .encoding :=
          hok _ rfl
        have hframes : (s.encoders.map (cancelOf cookies.buffer)).flatMap Encoder.frames =
            s.encoders.flatMap Encoder.frames :=
          flatMap_cancelOf fun e he => cancelOf_frames (hready e he)
        refine ⟨⟨h.different, ?_, ?_, ?_, h.lock, h.assertions⟩, ?_, h.mems, h.unlocked⟩
        · have hbooks := h.frames
          rw [inProcess, ← hframes] at hbooks
          exact hbooks
        · exact houtputs ▸ h.outputs
        · exact hexifs ▸ h.exifs
        · intro d hd hplace
          obtain ⟨e, he, rfl⟩ := List.mem_map.mp hd
          change (cancelOf cookies.buffer e).place = .encoding at hplace
          change (cancelOf cookies.buffer e).canceled = false
          rw [(cancelOf_live _ _).2.2] at hplace
          rw [cancelOf, if_neg fun heq => hready e he heq hplace]
          exact h.encoding e he hplace
      · intro hnot h'
        simp only [List.head?_cons, Option.mem_def, Option.some.injEq, forall_eq'] at hnot
        push Not at hnot
        obtain ⟨e, he, hbuffer, hplace⟩ := hnot
        have hless := cancelOf_length he hbuffer hplace (h.encoding e he hplace)
        have hbooks := h.frames.length_eq
        have hbooks' := h'.frames.length_eq
        simp only [inProcess, withApplication, cancel, length_append]
          at hbooks hbooks'
        change _ = _ + (_ + _ +
          ((s.encoders.map (cancelOf cookies.buffer)).flatMap Encoder.frames).length + _) at hbooks'
        omega
  | releasing cookies =>
    simp only [hs, Option.some.injEq] at hstep
    subst hstep
    constructor
    · rintro ⟨hout, hexif⟩
      simp only [hout, hexif, Option.isSome_none, Bool.false_eq_true, if_false, ne_eq,
        not_true_eq_false, append_nil]
      exact ⟨⟨h.different, h.frames, h.outputs, h.exifs, h.lock, h.assertions⟩, h.encoding, h.mems,
        h.unlocked⟩
    · intro hnot h'
      have houtputs := h.outputs.length_eq
      have houtputs' := h'.outputs.length_eq
      have hexifs := h.exifs.length_eq
      have hexifs' := h'.exifs.length_eq
      simp only [length_append] at houtputs' hexifs'
      refine hnot ⟨?_, ?_⟩
      · cases hout : cookies.output with
        | none => rfl
        | some data =>
          rw [hout, Option.isSome_some, if_pos rfl, List.length_singleton] at houtputs'
          omega
      · by_contra hexif
        rw [if_pos hexif, List.length_singleton] at hexifs'
        omega
  | removing =>
    simp only [hs] at hstep
    by_cases hempty : s.gEncoderQueue.entries = []
    · rw [if_pos hempty, Option.some.injEq] at hstep
      subst hstep
      exact ⟨fun hok => absurd hempty hok, fun _ h' => nomatch h'.assertions⟩
    · rw [if_neg hempty, Option.some.injEq] at hstep
      subst hstep
      exact ⟨fun _ => ⟨⟨h.different, h.frames, h.outputs, h.exifs, h.lock, h.assertions⟩,
        h.encoding, h.mems, h.unlocked⟩, fun hnot => absurd hempty hnot⟩

/-! ## The other steps -/

theorem Inv.addVideoBuffers (h : Inv s) (buffers : List VideoBuffer) :
    Inv (s.addVideoBuffers buffers) := by
  induction buffers generalizing s with
  | nil => exact h
  | cons b rest ih =>
    rw [State.addVideoBuffers]
    split
    · exact h
    · split
      · exact h
      · exact ih ⟨⟨h.different, h.frames, h.outputs, h.exifs, h.lock, h.assertions⟩, h.encoding,
          h.mems, h.unlocked⟩

theorem Inv.flushAndReturnFrames (h : Inv s) : Inv s.flushAndReturnFrames := by
  refine ⟨⟨h.different, ?_, h.outputs, h.exifs, h.lock, h.assertions⟩, h.encoding, h.mems,
    h.unlocked⟩
  rw [balanced_iff_count]
  intro x
  have hbooks := balanced_iff_count.mp h.frames x
  simp only [inProcess, withApplication, State.flushAndReturnFrames,
    count_append, map_nil, count_nil] at hbooks ⊢
  omega

theorem Inv.control (h : Inv s) {c : Control} (hstep : s.control c = some s') : Inv s' := by
  cases c with
  | startRecording =>
    rw [State.control, State.startRecording, if_neg (by simp [h.unlocked])] at hstep
    cases hstep
    exact ⟨⟨h.different, h.frames, h.outputs, h.exifs, h.lock, h.assertions⟩, h.encoding, h.mems,
      h.unlocked⟩
  | stopRecording =>
    rw [State.control, State.stopRecording, if_neg (by simp [h.unlocked])] at hstep
    split at hstep
    · exact Option.some.inj hstep ▸ h
    split at hstep <;> cases hstep <;>
      exact ⟨⟨h.different, h.frames, h.outputs, h.exifs, h.lock, h.assertions⟩, h.encoding,
        h.mems, h.unlocked⟩
  | initSharedVideoBuffers buffers =>
    cases hstep
    rw [State.initSharedVideoBuffers]
    split
    · exact h.addVideoBuffers buffers
    · exact h
  | flushAndReturnFrames =>
    cases hstep
    exact h.flushAndReturnFrames
  | start =>
    cases hstep
    rw [State.start]
    split
    · exact h
    · exact ⟨⟨h.different, h.frames, h.outputs, h.exifs, h.lock, h.assertions⟩, h.encoding,
        h.mems, h.unlocked⟩
  | stop =>
    cases hstep
    rw [State.stop]
    split
    · exact h
    · exact ⟨⟨h.different, h.frames, h.outputs, h.exifs, h.lock, h.assertions⟩, h.encoding,
        h.mems, h.unlocked⟩

theorem Inv.frameCallback (h : Inv s) (hnew : f.mBuffer ∉ s.given.map Prod.fst) :
    Inv { s with mFrameQ := s.mFrameQ ++ [f], given := s.given ++ [f.ident] } := by
  refine ⟨⟨?_, ?_, h.outputs, h.exifs, h.lock, h.assertions⟩, h.encoding, h.mems, h.unlocked⟩
  · simp only [map_append, map_cons, map_nil, ident]
    exact (List.perm_append_singleton _ _).nodup_iff.mpr (List.nodup_cons.mpr ⟨hnew, h.different⟩)
  · rw [balanced_iff_count]
    intro x
    have hbooks := balanced_iff_count.mp h.frames x
    simp only [inProcess, withApplication, count_append, map_append,
      map_cons, map_nil] at hbooks ⊢
    omega

theorem returnsFor_spec (h : Inv s) {r : RecordingFrame} {others : List RecordingFrame}
    (hperm : s.recordingFrames.Perm (r :: others)) (back : Nat) :
    (back = r.frame → Inv ({ s with recordingFrames := others }.returnFrame back .videoFrameSync)) ∧
      (back ≠ r.frame →
        ¬ Accounted ({ s with recordingFrames := others }.returnFrame back .videoFrameSync)) := by
  have hcount : ∀ x, s.withApplication.count x = [(r.frame, FrameType.videoFrameSync)].count x +
      (others.map fun r => (r.frame, FrameType.videoFrameSync)).count x := by
    intro x
    rw [withApplication, (hperm.map _).count_eq, ← count_append]
    rfl
  constructor
  · rintro rfl
    refine ⟨⟨h.different, ?_, h.outputs, h.exifs, h.lock, h.assertions⟩, h.encoding, ?_,
      h.unlocked⟩
    · rw [balanced_iff_count]
      intro x
      have hbooks := balanced_iff_count.mp h.frames x
      rw [count_append, hcount] at hbooks
      simp only [inProcess, count_append] at hbooks
      simp only [inProcess, withApplication, returnFrame, count_append]
      omega
    · exact fun r' hr' => h.mems r' (hperm.mem_iff.mpr (List.mem_cons_of_mem _ hr'))
  · intro hne
    refine not_accounted_of_lost h.toAccounted (x := (r.frame, .videoFrameSync)) rfl ?_
    have hzero : [(back, FrameType.videoFrameSync)].count (r.frame, .videoFrameSync) = 0 := by
      rw [List.count_singleton, if_neg (by simpa using hne)]
    have happ := hcount (r.frame, .videoFrameSync)
    rw [List.count_singleton_self] at happ
    simp only [inProcess, withApplication, returnFrame, count_append,
      hzero] at happ ⊢
    omega

theorem giveBack_spec (h : Inv s) {frame word : Nat} (hstep : s.giveBack frame word = some s') :
    (Orderly s (.giveBack frame word) → Inv s') ∧
      (¬ Orderly s (.giveBack frame word) → ¬ Accounted s') := by
  obtain ⟨⟨r, others⟩, htake, rfl⟩ := Option.map_eq_some_iff.mp hstep
  have hperm := perm_of_takeFirst htake
  have hiff : Orderly s (.giveBack frame word) ↔ LeadsBack s r word := by
    constructor
    · exact fun horderly => horderly r others htake
    · intro hleads r' others' htake'
      cases htake.symm.trans htake'
      exact hleads
  have hmem : r.mem ≠ 0 := h.mems r (hperm.mem_iff.mpr List.mem_cons_self)
  rw [hiff, LeadsBack, releaseRecordingFrame, if_neg hmem]
  by_cases hmeta : s.config.mUseMetaDataBufferMode = true
  · simp only [if_pos hmeta]
    cases hback : s.mVideoMetadataBufferReverseMap.valueFor r.mem with
    | none => exact ⟨nofun, fun _ h' => nomatch h'.assertions⟩
    | some back =>
      obtain ⟨hgood, hbad⟩ := returnsFor_spec h hperm back
      exact ⟨fun heq => hgood (Option.some.inj heq), fun hne => hbad fun heq => hne (heq ▸ rfl)⟩
  · simp only [if_neg hmeta]
    exact returnsFor_spec h hperm word

/-! ## Runs -/

theorem Inv.start (config : Config) : Inv (start config) := by
  refine ⟨⟨List.nodup_nil, balanced_nil, balanced_nil, balanced_nil, fun _ => rfl, rfl⟩, ?_, ?_,
    rfl⟩
  · exact fun e he => absurd he List.not_mem_nil
  · exact fun r hr => absurd hr List.not_mem_nil

theorem next_spec (h : Inv s) (step : Step) :
    (∀ s', next s step = some s' → Orderly s step → Inv s') ∧
      (¬ Orderly s step → ∃ s', next s step = some s' ∧ ¬ Accounted s') := by
  cases step with
  | frameCallback f =>
    refine ⟨fun s' hstep _ => ?_, fun hnot => absurd trivial hnot⟩
    rw [next] at hstep
    split at hstep
    · cases hstep
    · next hnew => exact Option.some.inj hstep ▸ h.frameCallback hnew
  | notifyFrame a =>
    obtain ⟨s', hs', hgood, hbad⟩ := notifyFrame_spec h a
    refine ⟨fun t ht horderly => ?_, fun hnot => ⟨s', hs', hbad hnot⟩⟩
    exact Option.some.inj (hs'.symm.trans ht) ▸ hgood horderly
  | encoder buffer jpegSize =>
    refine ⟨fun s' hstep => (encoderStep_spec h hstep).1, fun hnot => ?_⟩
    cases hstep : s.encoderStep buffer jpegSize with
    | some s' => exact ⟨s', hstep, (encoderStep_spec h hstep).2 hnot⟩
    | none =>
      refine absurd (fun e rest htake => ?_) hnot
      rw [encoderStep, htake] at hstep
      cases hstep
  | control c =>
    refine ⟨fun s' hstep _ => ?_, fun hnot => absurd trivial hnot⟩
    rw [next] at hstep
    split at hstep
    · exact h.control hstep
    · cases hstep
  | stopStep =>
    refine ⟨fun s' hstep => (stopStep_spec h hstep).1, fun hnot => ?_⟩
    cases hstep : s.stopStep with
    | some s' => exact ⟨s', hstep, (stopStep_spec h hstep).2 hnot⟩
    | none =>
      refine absurd ?_ hnot
      rw [Orderly, StopOk]
      rw [State.stopStep] at hstep
      cases hs : s.stopping with
      | idle => trivial
      | looking =>
        simp only [hs] at hstep
        split at hstep <;> cases hstep
      | releasing cookies =>
        simp only [hs] at hstep
        cases hstep
      | removing =>
        simp only [hs] at hstep
        split at hstep <;> cases hstep
  | giveBack frame word =>
    refine ⟨fun s' hstep => (giveBack_spec h hstep).1, fun hnot => ?_⟩
    cases hstep : s.giveBack frame word with
    | some s' => exact ⟨s', hstep, (giveBack_spec h hstep).2 hnot⟩
    | none =>
      refine absurd (fun r others htake => ?_) hnot
      rw [State.giveBack, htake] at hstep
      cases hstep

def configured (metadata : Bool) : Config :=
  { hasCameraHal := true
    hasDataCb := true
    hasNotifyCb := true
    mMeasurementEnabled := false
    mUseMetaDataBufferMode := metadata
    mUseVideoBuffers := false }

/-- All messages are enabled, and there is no memory for `fakebuf`. -/
def noFakebuf : Allocations := ⟨fun _ => true, some 0x10, true, none⟩

end Omap4Hal.Camera.CallbackNotifier

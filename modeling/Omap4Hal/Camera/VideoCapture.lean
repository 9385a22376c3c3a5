import Omap4Hal.Camera.FrameOwnership

/- Starting and stopping video capture. `startVideoCapture` makes the table of video buffers.
   `stopVideoCapture` takes the holders of each video frame back and throws the table away,
   and other threads run between its steps: what it leaves of a count stays in the table until
   then, and for as long the preview or snapshot frame in the buffer is held. -/
namespace Omap4Hal.Camera

open Lib
open Function (update update_eq_self update_of_ne update_self)
open Frames
open FrameType

/-! ## Stopping -/

variable {w : Frames} {k buf : Int} {i : Nat}

theorem count_of_not_key {s : Store} (h : k ∉ (w.available s).keys) :
    w.count s k = 0 := by
  by_contra hne
  exact h (key_of_count hne)

theorem FramesOk.placed (h : FramesOk w) {place : Option StopPlace}
    (hfilm : ({ w with stopping := place } : Frames).Filming ↔ w.Filming)
    (hret : ∀ r, w.returning = some r → r.stop = false)
    (hstops : StopsOk { w with stopping := place }) : FramesOk { w with stopping := place } := by
  refine ⟨h.keys.congr hfilm fun _ _ => Iff.rfl, h.null, ?_, h.fills, ?_, hstops⟩
  · intro k
    exact (h.bufs k).congr ⟨fun _ => rfl, fun _ _ _ _ hk => hk, rfl, rfl, rfl, rfl, rfl, rfl, rfl,
      .inl, fun _ => id⟩ (fun hv => hfilm.mpr ((h.bufs k).counts.video hv)) rfl rfl
  · intro r hr
    obtain ⟨hbuf, haway, hown, -, halone, hkey, hbefore, hafter⟩ := h.returns r hr
    exact ⟨hbuf, haway, hown, fun hstop => absurd ((hret r hr).symm.trans hstop) Bool.noConfusion,
      halone, hkey, hbefore, hafter⟩

theorem FramesOk.not_stop (h : FramesOk w) (hplace : ∀ i, w.stopping ≠ some (.inReturn i))
    {r : Return} (hr : w.returning = some r) : r.stop = false := by
  by_contra hstop
  obtain ⟨i, hi⟩ := (h.returns r hr).stop (by simpa using hstop)
  exact hplace i hi

theorem stopVideoCapture_ok (h : FramesOk w) (hstop : w.stopping = none) :
    FramesOk w.stopVideoCapture := by
  rw [Frames.stopVideoCapture]
  split
  · next hrec =>
    refine h.placed ?_ (fun r => h.not_stop (by simp [hstop])) ⟨fun _ => hrec, nofun⟩
    simp [Frames.Filming, hstop]
  · exact h

theorem pass_ok (h : FramesOk w) (hplace : w.stopping = some (.pass i))
    (hkey : (w.available .video).keys[i]? = some buf) :
    ∃ w', w.stopStep = some w' ∧ FramesOk w' := by
  have hmem := List.mem_of_getElem? hkey
  have hrec := h.stops.recording (by simp [hplace])
  have hget : w.getFrameRefCount buf .videoFrameSync = some (w.count .video buf) :=
    valueFor_of_key hmem
  refine ⟨_, by simp only [stopStep, hplace, hkey, hget]; rfl, ?_⟩
  refine h.placed ?_ (fun r => h.not_stop (by simp [hplace])) ⟨fun _ => hrec, ?_⟩
  · split <;> simp [Frames.Filming, hplace]
  · intro j buf' htaking
    split at htaking
    · next hpos =>
      cases htaking
      refine ⟨?_, hmem⟩
      rintro rfl
      rw [h.null] at hpos
      omega
    · cases htaking

theorem count_clearVideo (w : Frames) (s : Store) (buf : Int) :
    w.clearVideo.count s buf = if s = .video then 0 else w.count s buf := by
  by_cases hs : s = .video
  · rw [if_pos hs, hs]
    rfl
  · simp only [Frames.count, clearVideo, update_of_ne hs, if_neg hs]

theorem pending_ne_video {s : Sending} (hsilent : .videoFrameSync ∉ s.types) {t : FrameType}
    (ht : t ∈ s.pending) : t.store ≠ .video := by
  intro hv
  rw [store_eq_video.mp hv] at ht
  exact hsilent (Sending.mem_types_of_pending ht)

theorem BufOk.clear (h : BufOk w buf) (howed : w.owed .video buf = 0) (hsilent : w.Silent buf) :
    BufOk w.clearVideo buf := by
  have hcount : ∀ {s}, w.clearVideo.count s buf ≠ 0 → s ≠ .video ∧ w.count s buf ≠ 0 := by
    intro s hs
    rw [count_clearVideo] at hs
    split at hs
    · exact absurd rfl hs
    · next hv => exact ⟨hv, hs⟩
  refine ⟨⟨?_, ?_, ?_, ?_⟩, ?_, ?_, h.settled, ?_, fun hne => absurd rfl hne⟩
  · intro s
    rw [count_clearVideo]
    have htally := h.counts.tally s
    cases s with
    | video => exact congrArg Nat.cast howed.symm
    | preview => exact htally
    | capture => exact htally
    | previewData => exact htally
  · intro s s' hne hs hs'
    exact h.counts.coupled s s' hne (hcount hs).2 (hcount hs').2
  · exact fun hv => absurd rfl (hcount hv).1
  · intro s
    rw [count_clearVideo]
    split
    · cases s <;> rfl
    · exact h.counts.small s
  · intro hdev
    refine ⟨?_, (h.home hdev).2⟩
    intro s
    by_contra hs
    exact (hcount hs).2 ((h.home hdev).1 s)
  · intro hdev
    refine ⟨(h.out hdev).1, fun hdelivered => ?_⟩
    have hpreview : ∀ {s}, s ≠ .video → w.count s buf ≠ 0 →
        (∃ s, w.clearVideo.count s buf ≠ 0) ∨ w.clearVideo.InReturn buf := by
      intro s hs hne
      exact .inl ⟨s, by rwa [count_clearVideo, if_neg hs]⟩
    rcases (h.out hdev).2 hdelivered with ⟨s, hs⟩ | hin
    · by_cases hv : s = .video
      · -- a count that is stale is not the only one
        have htally := h.counts.tally .video
        rw [howed] at htally
        have hne : w.stale buf ≠ 0 := by
          intro hzero
          rw [hv, htally] at hs
          simp [staleIn, hzero] at hs
        rcases (h.stale hne).2 with hpos | ⟨r, hr, hbuf, _⟩
        · exact hpreview (s := .preview) (by decide) (Int.ne_of_gt hpos)
        · exact .inr ⟨r, hr, hbuf⟩
      · exact hpreview hv hs
    · exact .inr hin
  · intro s hs
    refine (h.sends s hs).congr ?_ rfl ?_ rfl rfl rfl
    · intro t ht
      rw [count_clearVideo, if_neg (pending_ne_video (hsilent s hs) ht)]
    · intro t ht hkey
      simpa only [clearVideo,
        update_of_ne (pending_ne_video (hsilent s hs) ht)] using hkey

/-- A buffer that is not in the table has no video frame. -/
theorem BufOk.no_video (h : BufOk w buf) (hkey : buf ∉ (w.available .video).keys) :
    w.owed .video buf = 0 ∧ w.Silent buf := by
  have htally := h.counts.tally .video
  rw [count_of_not_key hkey] at htally
  have howed : w.owed .video buf = 0 := by omega
  refine ⟨howed, ?_⟩
  intro s hs hmem
  have hsend := h.sends s hs
  cases s with
  | next t rest => exact hkey (hsend.place.1.key _ hmem)
  | calling t i n rest =>
    obtain ⟨hi, -, hdue, hqueued, -⟩ := hsend.place
    rcases List.mem_cons.mp hmem with rfl | hmem
    · rw [Frames.owed, hdue] at howed
      omega
    · exact hkey (hqueued.key _ hmem)

theorem clear_ok (h : FramesOk w) (hplace : w.stopping = some (.pass i))
    (hok : StopOk w) (hkey : (w.available .video).keys[i]? = none) :
    ∃ w', w.stopStep = some w' ∧ FramesOk w' := by
  rw [StopOk, hplace] at hok
  obtain ⟨hlisted, hlook⟩ := hok (List.getElem?_eq_none_iff.mp hkey)
  have hbufs : ∀ k, w.owed .video k = 0 ∧ w.Silent k := by
    intro k
    by_cases hk : k ∈ (w.available .video).keys
    · exact hlisted k hk
    · exact (h.bufs k).no_video hk
  have hkeys : ∀ {s : Store} {k : Int}, s ≠ .video → k ∈ (w.available s).keys →
      k ∈ (w.clearVideo.available s).keys := by
    intro s k hs hk
    simpa only [clearVideo, update_of_ne hs] using hk
  refine ⟨w.clearVideo, by simp only [stopStep, hplace, hkey], ⟨?_, fun _ => rfl⟩, rfl,
    fun k => (h.bufs k).clear (hbufs k).1 (hbufs k).2, h.fills, ?_, ?_⟩
  · exact fun hfilming => absurd rfl hfilming.2
  · intro r hr
    obtain ⟨hbuf, haway, hown, hstop, halone, hkey, hbefore, hafter⟩ := h.returns r hr
    have hsub := h.not_stop (by simp [hplace]) hr
    refine ⟨hbuf, haway, ?_, fun hs => absurd (hsub.symm.trans hs) Bool.noConfusion, fun _ _ => rfl,
      fun ht => hkeys (by decide) (hkey ht), ?_, ?_⟩
    · rw [count_clearVideo]
      split
      · next hv =>
        -- all that the count can have is what is owed
        have htally := (h.bufs r.buf).counts.tally .video
        have howed : w.owed .video r.buf = 0 := (hbufs r.buf).1
        rw [howed, staleIn, halone hsub hv] at htally
        rw [← hown, hv]
        exact htally.symm
      · exact hown
    · intro hother s hs hne
      rw [count_clearVideo] at hne
      split at hne
      · exact absurd rfl hne
      · exact hbefore hother s hs hne
    · intro o ho
      obtain ⟨hfound, hrest⟩ := hafter o ho
      refine ⟨?_, ?_⟩
      · rintro t rfl
        refine hkeys ?_ (hfound t rfl)
        intro hv
        rw [store_eq_video.mp hv] at ho
        exact hlook r hr ho
      · intro s hs hne
        rw [count_clearVideo] at hne
        split at hne
        · exact absurd rfl hne
        · exact hrest s hs hne
  · exact ⟨fun _ => h.stops.recording (by simp [hplace]), fun _ _ htaking => by cases htaking⟩

theorem cleared_ok (h : FramesOk w) (hplace : w.stopping = some .cleared) (hok : StopOk w) :
    ∃ w', w.stopStep = some w' ∧ FramesOk w' := by
  have hoff : ¬ w.Filming := fun hfilming => hfilming.2 hplace
  have hzero : ∀ k, w.count .video k = 0 := by
    intro k
    by_contra hne
    exact hoff ((h.bufs k).counts.video hne)
  rw [StopOk, hplace] at hok
  refine ⟨{ w with recording := false, stopping := none }, by simp only [stopStep, hplace],
    ⟨?_, fun _ => h.keys.off hoff⟩, h.null, ?_, h.fills, ?_, ⟨?_, nofun⟩⟩
  · exact fun hfilming => absurd hfilming.1 Bool.noConfusion
  · intro k
    exact (h.bufs k).congr ⟨fun _ => rfl, fun _ _ _ _ hk => hk, rfl, rfl, rfl, rfl, rfl, rfl, rfl,
      .inl, fun _ => id⟩ (absurd (hzero k)) rfl rfl
  · intro r hr
    obtain ⟨hbuf, haway, hown, hstop, halone, hkey, hbefore, hafter⟩ := h.returns r hr
    have hsub := h.not_stop (by simp [hplace]) hr
    refine ⟨hbuf, haway, hown, fun hs => absurd (hsub.symm.trans hs) Bool.noConfusion, halone, hkey,
      ?_, hafter⟩
    intro hother s hs hne
    rcases (hbefore hother s hs hne).2 with ⟨rfl, hv⟩ | ⟨rfl, -⟩
    · exact absurd (hok r hr (store_eq_video.mp hv) hother) hne
    · exact absurd (hzero r.buf) hne
  · intro hne
    exact absurd rfl hne

/-- The history of a buffer whose video holders are taken back. -/
def Frames.forgetVideo (w : Frames) (i : Nat) (buf : Int) : Frames :=
  { w with
    stopping := some (.inReturn i)
    held := update w.held buf (update (w.held buf) .videoFrameSync 0)
    due := update w.due buf (update (w.due buf) .videoFrameSync 0)
    stale := update w.stale buf (w.count .video buf - 1).toNat }

theorem SendOk.forgetVideo {s : Sending} (h : SendOk w buf s)
    (hsilent : .videoFrameSync ∉ s.types) : SendOk (w.forgetVideo i buf) buf s := by
  have hdue : update (w.due buf) .videoFrameSync 0 = w.due buf := by
    rw [← h.others _ hsilent, update_eq_self]
  refine h.congr (fun _ _ => rfl) ?_ (fun _ _ hk => hk) rfl rfl rfl
  exact (update_self ..).trans hdue

theorem FramesOk.forgets (h : FramesOk w) (hplace : w.stopping = some (.taking i buf))
    (hpos : 0 < w.count .video buf) (hsilent : w.Silent buf)
    (hone : w.count .video buf ≤ 1 ∨ 0 < w.count .preview buf) :
    Forgets w (w.forgetVideo i buf) buf .videoFrameSync true := by
  have htally := (h.bufs buf).counts.tally .video
  refine ⟨rfl, ?_, ?_, ?_, ?_, ?_, ?_, ⟨?_, nofun⟩, fun _ => ⟨i, rfl⟩, nofun⟩
  · intro k hk
    exact ⟨update_of_ne hk _ _, update_of_ne hk _ _, update_of_ne hk _ _⟩
  · intro s
    cases s with
    | video =>
      simp only [staleIn] at htally
      simp only [Frames.owed, staleIn, Frames.forgetVideo, store,
        update_self, if_true] at htally ⊢
      omega
    | preview => simp [Frames.owed, staleIn, Frames.forgetVideo, store]
    | capture => simp [Frames.owed, staleIn, Frames.forgetVideo, store]
    | previewData => simp [Frames.owed, staleIn, Frames.forgetVideo, store]
  · intro v
    by_cases hv : v = .videoFrameSync <;> simp [Frames.forgetVideo, hv]
  · intro s hs
    refine ⟨((h.bufs buf).sends s hs).forgetVideo (hsilent s hs), ?_⟩
    exact fun v hv => pending_ne_video (hsilent s hs) hv
  · intro hne
    refine ⟨by simp [Frames.owed, Frames.forgetVideo], .inr (hone.resolve_left ?_)⟩
    intro hle
    simp only [Frames.forgetVideo, update_self] at hne
    omega
  · simp [Frames.Filming, Frames.forgetVideo, hplace]
  · exact fun _ => h.stops.recording (by simp [hplace])

theorem takeBack_ok (h : FramesOk w) (hplace : w.stopping = some (.taking i buf))
    (hfree : w.returning = none) (hok : StopOk w) :
    ∃ w', w.stopStep = some w' ∧ FramesOk w' := by
  obtain ⟨hbuf, hkey⟩ := h.stops.taking i buf hplace
  rw [StopOk, hplace] at hok
  obtain ⟨hone, hsilent⟩ := hok
  have hget : w.getFrameRefCount buf .videoFrameSync = some (w.count .video buf) :=
    valueFor_of_key hkey
  by_cases hpos : 0 < w.count .video buf
  · refine ⟨_, ?_, h.lowered hfree hbuf (h.forgets hplace hpos hsilent hone)⟩
    rw [← returnFrame_eq hbuf hpos]
    simp only [stopStep, hplace, takeBack, hget, Option.bind_eq_bind,
      Option.bind_some, if_pos hpos]
    rfl
  · refine ⟨{ w with stopping := some (.pass (i + 1)) }, ?_, ?_⟩
    · simp only [stopStep, hplace, takeBack, hget, Option.bind_eq_bind,
        Option.bind_some, if_neg hpos]
      rfl
    · refine h.placed ?_ (fun r => h.not_stop (by simp [hplace])) ⟨?_, nofun⟩
      · simp [Frames.Filming, hplace]
      · exact fun _ => h.stops.recording (by simp [hplace])

theorem stopStep_ok (h : FramesOk w) (hposs : Possible w .stopStep) (hok : StopOk w) :
    ∃ w', w.stopStep = some w' ∧ FramesOk w' := by
  rw [Possible] at hposs
  cases hplace : w.stopping with
  | none => simp [hplace] at hposs
  | some place =>
    cases place with
    | pass i =>
      cases hkey : (w.available .video).keys[i]? with
      | none => exact clear_ok h hplace hok hkey
      | some buf => exact pass_ok h hplace hkey
    | taking i buf =>
      rw [hplace] at hposs
      exact takeBack_ok h hplace hposs hok
    | inReturn i => simp [hplace] at hposs
    | cleared => exact cleared_ok h hplace hok

/-! ## Starting -/

theorem mem_keys_foldl {ks : List Int} {v : KeyedVector Int Int} {x : Int} :
    k ∈ (ks.foldl (fun v k => v.add k x) v).keys ↔ k ∈ ks ∨ k ∈ v.keys := by
  induction ks generalizing v with
  | nil => simp
  | cons j ks ih =>
    rw [List.foldl_cons, ih, KeyedVector.mem_keys_add, List.mem_cons]
    tauto

theorem valueFor_foldl {ks : List Int} {v : KeyedVector Int Int} {x : Int} :
    (ks.foldl (fun v k => v.add k x) v).valueFor k = if k ∈ ks then some x else v.valueFor k := by
  induction ks generalizing v with
  | nil => simp
  | cons j ks ih =>
    rw [List.foldl_cons, ih, KeyedVector.valueFor_add]
    by_cases hk : k ∈ ks <;> by_cases hj : k = j <;> simp [hk, hj]

theorem startVideoCapture_ok (h : FramesOk w) (hstop : w.stopping = none) :
    FramesOk w.startVideoCapture := by
  cases hrec : w.recording with
  | true =>
    rw [Frames.startVideoCapture, if_pos hrec]
    exact h
  | false =>
    have hoff : ¬ w.Filming := fun hfilming =>
      absurd (hrec.symm.trans hfilming.1) Bool.false_ne_true
    have hzero : ∀ k, w.count .video k = 0 := by
      intro k
      by_contra hne
      exact hoff ((h.bufs k).counts.video hne)
    obtain ⟨w', hw'⟩ : ∃ w' : Frames, w' = w.startVideoCapture := ⟨_, rfl⟩
    rw [← hw']
    rw [Frames.startVideoCapture, if_neg (by simp [hrec])] at hw'
    have hsame : ∀ s k, w'.count s k = w.count s k := by
      intro s k
      by_cases hs : s = .video
      · rw [hs, hzero, hw']
        simp only [Frames.count, update_self, valueFor_foldl]
        split
        · rfl
        · exact hzero k
      · rw [hw']
        simp only [Frames.count, update_of_ne hs]
    have hkeys : ∀ s k, k ∈ (w.available s).keys → k ∈ (w'.available s).keys := by
      intro s k hkey
      by_cases hs : s = .video
      · rw [hs, h.keys.off hoff] at hkey
        cases hkey
      · rw [hw']
        simpa only [update_of_ne hs] using hkey
    have hfilming : w'.Filming := by
      rw [hw']
      exact ⟨rfl, by simp [hstop]⟩
    have hplace : w'.stopping = w.stopping := by rw [hw']
    have hon : w.recording = true → w'.recording = true := fun _ => hfilming.1
    refine ⟨⟨?_, fun hno => absurd hfilming hno⟩, ?_, ?_, ?_, ?_, h.stops.congr hplace hon hkeys⟩
    · intro _ k
      rw [hw']
      simp [mem_keys_foldl, h.keys.off hoff]
    · rw [hsame]
      exact h.null
    · intro buf
      refine (h.bufs buf).congr ⟨fun s => hsame s buf, fun s _ t _ => hkeys t.store buf,
        by rw [hw'], by rw [hw'], by rw [hw'], by rw [hw'], by rw [hw'], by rw [hw'], by rw [hw'],
        ?_, ?_⟩ (fun _ => hfilming) (by rw [hw']) (by rw [hw'])
      · rw [hw']
        exact .inl
      · rintro - (hpos | hunder)
        · exact .inl ((hsame _ _).symm ▸ hpos)
        · rw [hw']
          exact .inr hunder
    · rw [hw']
      exact h.fills
    · intro r hr
      have hr' : w.returning = some r := by
        rw [hw'] at hr
        exact hr
      exact (h.returns r hr').congr (fun s => hsame s r.buf) hkeys (by rw [hw']) (by rw [hw'])
        (by rw [hw']) hplace hon

end Omap4Hal.Camera

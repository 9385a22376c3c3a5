import Mathlib.Data.List.Pairwise
import Omap4Hal.Camera.VideoCapture

/- The frames of the camera adapter, over whole runs. A delivery goes through its steps for
   one buffer. The invariant holds after every step that meets `FrameOk`, and with it
   `Owned`.

   `frames_owned` is the result. -/
namespace Omap4Hal.Camera

open Lib
open Function (update update_self update_of_ne)
open FrameType
open Frames
open List (mem_cons mem_cons_of_mem mem_cons_self pairwise_cons)

/-! ## A delivery starts -/

variable {t u : FrameType} {types rest : List FrameType} {w : Frames} {buf : Int} {i n : Nat}

theorem Together.symm (h : Together t u) : Together u t := by
  rcases h with ⟨ht, hu⟩ | ⟨ht, hu⟩
  · exact .inr ⟨hu, ht⟩
  · exact .inl ⟨hu, ht⟩

theorem Together.store_ne (h : Together t u) : t.store ≠ u.store := by
  rcases h with ⟨ht, hu⟩ | ⟨ht, hu⟩ <;> rw [ht, hu] <;> decide

theorem together_of_mem (h : types.Pairwise Together) (ht : t ∈ types) (hu : u ∈ types)
    (hne : t ≠ u) : Together t u := by
  have : Std.Symm Together := ⟨fun _ _ hab => hab.symm⟩
  exact h.forall ht hu hne

theorem stored_stored (s : Store) (n : Int) : s.stored (s.stored n) = s.stored n := by
  cases s <;> simp only [Store.stored] <;> split <;> simp_all

/-- The loop of `setInitFrameRefCount`, for types with different tables. -/
theorem setInit_eq (hdiff : types.Pairwise fun t u => t.store ≠ u.store) (w : Frames) (buf : Int) :
    ∃ av, types.foldl
        (fun w t => w.setFrameRefCount buf t (w.subscribers t.audience).length) w =
        { w with available := av } ∧
      (∀ t ∈ types, ({ w with available := av } : Frames).count t.store buf =
        t.store.stored (w.subscribers t.audience).length) ∧
      (∀ s k, k ≠ buf ∨ (∀ t ∈ types, t.store ≠ s) →
        ({ w with available := av } : Frames).count s k = w.count s k) ∧
      ∀ s k, k ∈ (av s).keys ↔ (k = buf ∧ ∃ t ∈ types, t.store = s) ∨ k ∈ (w.available s).keys := by
  induction types generalizing w with
  | nil => exact ⟨w.available, rfl, nofun, fun _ _ _ => rfl, fun s k => by simp⟩
  | cons t types ih =>
    obtain ⟨hfirst, hrest⟩ := pairwise_cons.mp hdiff
    obtain ⟨av, heq, hset, hsame, hkeys⟩ :=
      ih hrest (w.setFrameRefCount buf t (w.subscribers t.audience).length)
    refine ⟨av, heq, ?_, ?_, ?_⟩
    · intro u hu
      rcases mem_cons.mp hu with rfl | hu
      · refine (hsame u.store buf (.inr fun v hv => Ne.symm (hfirst v hv))).trans ?_
        rw [count_setFrameRefCount, if_pos ⟨rfl, rfl⟩]
      · exact hset u hu
    · intro s k hk
      have hrest' : k ≠ buf ∨ ∀ v ∈ types, v.store ≠ s :=
        hk.imp_right fun hall v hv => hall v (mem_cons_of_mem _ hv)
      refine (hsame s k hrest').trans ?_
      rw [count_setFrameRefCount, if_neg]
      rintro ⟨hs, hkb⟩
      rcases hk with hk | hall
      · exact hk hkb
      · exact hall t mem_cons_self hs.symm
    · intro s k
      rw [hkeys, keys_setFrameRefCount]
      simp only [mem_cons, exists_eq_or_imp]
      constructor
      · rintro (⟨hk, u, hu, hs⟩ | ⟨hs, hk⟩ | hk)
        · exact .inl ⟨hk, .inr ⟨u, hu, hs⟩⟩
        · exact .inl ⟨hk, .inl hs.symm⟩
        · exact .inr hk
      · rintro (⟨hk, hs | ⟨u, hu, hs⟩⟩ | hk)
        · exact .inr (.inl ⟨hs.symm, hk⟩)
        · exact .inl ⟨hk, u, hu, hs⟩
        · exact .inr (.inr hk)

theorem owed_eq_due (hheld : ∀ u, w.held buf u = 0)
    (hdue : ∀ u, u ≠ t → u.store = t.store → w.due buf u = 0) :
    w.owed t.store buf = w.due buf t := by
  cases t with
  | previewFrameSync =>
    simp [store, owed, hheld, hdue .snapshotFrame (by decide) rfl]
  | snapshotFrame =>
    simp [store, owed, hheld, hdue .previewFrameSync (by decide) rfl]
  | imageFrame => simp [store, owed, hheld, hdue .rawFrame (by decide) rfl]
  | rawFrame => simp [store, owed, hheld, hdue .imageFrame (by decide) rfl]
  | videoFrameSync => simp [store, owed, hheld]
  | frameDataSync => simp [store, owed, hheld]

/-- What a buffer is like when its frame has been announced. -/
structure Announced (w : Frames) (buf : Int) (types : List FrameType) : Prop where
  held : ∀ t, w.held buf t = 0
  due : ∀ t, w.due buf t = if t ∈ types then (w.count t.store buf).toNat else 0
  set : ∀ t ∈ types, w.count t.store buf = t.store.stored (w.subscribers t.audience).length
  unset : ∀ s, (∀ t ∈ types, t.store ≠ s) → w.count s buf = 0
  key : ∀ t ∈ types, buf ∈ (w.available t.store).keys

theorem Announced.nonneg (h : Announced w buf types) (ht : t ∈ types) :
    0 ≤ w.count t.store buf := by
  rw [h.set t ht]
  exact (stored_bounds _ _).1

theorem Announced.exists_type (h : Announced w buf types) {s : Store} (hs : w.count s buf ≠ 0) :
    ∃ t ∈ types, t.store = s := by
  by_contra hnone
  push Not at hnone
  exact hs (h.unset s hnone)

theorem Announced.tally (h : Announced w buf types) (htypes : types.Pairwise Together) (s : Store) :
    w.count s buf = w.owed s buf := by
  by_cases hs : ∃ t ∈ types, t.store = s
  · obtain ⟨t, ht, rfl⟩ := hs
    have hothers : ∀ u, u ≠ t → u.store = t.store → w.due buf u = 0 := by
      intro u hne hstore
      rw [h.due, if_neg]
      intro hu
      exact (together_of_mem htypes hu ht hne).store_ne hstore
    have hnonneg := h.nonneg ht
    rw [owed_eq_due h.held hothers, h.due, if_pos ht]
    omega
  · push Not at hs
    rw [h.unset s hs, owed_eq_zero h.held]
    · rfl
    · intro u hu
      rw [h.due, if_neg]
      intro hmem
      exact hs u hmem hu

theorem Announced.counts (h : Announced w buf types) (htypes : types.Pairwise Together)
    (hvideo : .videoFrameSync ∈ types → w.Filming) (hstale : w.stale buf = 0) :
    CountsOk w buf := by
  refine ⟨?_, ?_, ?_, ?_⟩
  · intro s
    rw [h.tally htypes]
    cases s <;> simp [staleIn, hstale]
  · intro s s' hne hs hs'
    obtain ⟨t, ht, rfl⟩ := h.exists_type hs
    obtain ⟨t', ht', rfl⟩ := h.exists_type hs'
    apply together_of_mem htypes ht ht'
    rintro rfl
    exact hne rfl
  · intro hv
    obtain ⟨t, ht, hstore⟩ := h.exists_type hv
    rw [store_eq_video.mp hstore] at ht
    exact hvideo ht
  · intro s
    by_cases hs : w.count s buf = 0
    · rw [hs]
      cases s <;> rfl
    · obtain ⟨t, ht, rfl⟩ := h.exists_type hs
      rw [h.set t ht]
      exact stored_stored _ _

theorem Announced.queued (h : Announced w buf types) : Queued w buf types := by
  refine ⟨?_, ?_, h.key⟩
  · intro t ht
    have hnonneg := h.nonneg ht
    rw [h.due, if_pos ht]
    omega
  · intro t ht
    rw [h.set t ht]
    exact (stored_bounds _ _).2

theorem Announced.sends (h : Announced w buf types) (htypes : types.Pairwise Together)
    (hcallbacks : ∀ t ∈ types, ∀ b ∈ w.subscribers t.audience, b = true)
    (hqueue : w.frameQueue = [] ∨ buf ∈ w.frameQueue) (hnew : w.delivered buf = 0) {s : Sending}
    (hs : Sending.ofTypes types = some s) : SendOk w buf s := by
  cases types with
  | nil => cases hs
  | cons t rest =>
    cases hs
    refine ⟨htypes, hcallbacks, hqueue, ?_, h.queued, ?_⟩
    · intro u hu
      rw [h.due]
      exact if_neg hu
    · intro hpos
      omega

theorem deliver_ok (h : FramesOk w) {mask : Nat} (hposs : Possible w (.deliver buf mask))
    (hmask : MaskOk w mask) :
    FramesOk (w.deliver buf mask) := by
  obtain ⟨hbuf, hdev, -, hqueue, hloaded⟩ := hposs
  obtain ⟨htypes, hvideo, hcallbacks⟩ := hmask
  have hb := h.bufs buf
  have hzero := (hb.home hdev).1
  obtain ⟨av, heq, hset, hsame, hkeys⟩ :=
    setInit_eq (htypes.imp fun hab => hab.store_ne) w buf
  have hloaded' : ∀ t ∈ typesOf mask, buf ∈ (w.available t.store).keys := by
    intro t ht
    have hsource := hloaded t ht
    by_cases hstore : t.store = .video
    · rw [store_eq_video.mp hstore] at ht hsource ⊢
      exact (h.keys.on (hvideo ht) buf).mpr hsource
    · cases t <;> first | exact hsource | exact absurd rfl hstore
  have hkeys' : ∀ s k, k ∈ (av s).keys ↔ k ∈ (w.available s).keys := by
    intro s k
    rw [hkeys]
    refine or_iff_right_of_imp ?_
    rintro ⟨rfl, t, ht, rfl⟩
    exact hloaded' t ht
  obtain ⟨w', hw'⟩ : ∃ w', w' = w.deliver buf mask := ⟨_, rfl⟩
  rw [← hw']
  rw [Frames.deliver, Frames.setInitFrameRefCount, heq] at hw'
  have hann : Announced w' buf (typesOf mask) := by
    rw [hw']
    refine ⟨?_, ?_, hset, ?_, ?_⟩
    · intro t
      exact (hb.counts.forgotten hzero t).1
    · intro t
      simp only [update_self]
      rfl
    · intro s hs
      exact (hsame s buf (.inr hs)).trans (hzero s)
    · intro t ht
      exact (hkeys' _ _).mpr (hloaded' t ht)
  have hstale := hb.counts.not_stale (hzero .video)
  refine h.change (fun hz => absurd hz hbuf) ⟨?_, ?_, ?_⟩ ?_ ⟨?_, ?_, ?_, ?_, ?_, ?_⟩ ?_ ?_ ?_
  · rw [hw']
    exact ⟨rfl, rfl, rfl⟩
  · intro k hk
    rw [hw']
    refine ⟨fun s => hsame s k (.inl hk), fun s _ t _ hkey => (hkeys' _ _).mpr hkey, rfl,
      update_of_ne hk _ _, update_of_ne hk _ _, update_of_ne hk _ _,
      update_of_ne hk _ _, update_of_ne hk _ _, rfl, .inl, fun _ hkept => ?_⟩
    exact hkept.imp_left fun hpos => (hsame .preview k (.inl hk)).symm ▸ hpos
  · rw [hw']
    exact hkeys'
  · rw [hw']
    exact Iff.rfl
  · apply hann.counts htypes
    · rw [hw']
      exact hvideo
    · rw [hw']
      exact hstale
  · intro hdev'
    rw [hw'] at hdev'
    simp at hdev'
  · intro _
    rw [hw']
    simp
  · intro _ hpos
    rw [hw'] at hpos
    simp at hpos
  · intro s hs
    apply hann.sends htypes ?_ ?_ ?_
    · rw [← hs, hw']
      simp
    · rw [hw']
      exact hcallbacks
    · rw [hw']
      exact hqueue
    · rw [hw']
      simp
  · rw [hw']
    exact absurd hstale
  · rw [hw']
    exact h.fills
  · intro r hr
    have hr' : w.returning = some r := by rwa [hw'] at hr
    have hret := h.returns r hr'
    -- the buffer is with the device, and the one that is being returned is not
    have hne : r.buf ≠ buf := by
      intro heq
      rw [← heq, hret.away.1] at hdev
      cases hdev
    rw [hw']
    exact hret.congr (fun s => hsame s r.buf (.inl hne)) (fun s k => (hkeys' s k).mpr)
      (update_of_ne hne _ _) (update_of_ne hne _ _) rfl rfl id
  · rw [hw']
    exact h.stops.congr rfl id fun s k => (hkeys' s k).mpr

/-! ## A delivery goes on -/

theorem FramesOk.moved (h : FramesOk w) {place : Option Sending}
    (hnone : place = none → 0 < w.delivered buf → ∀ t, w.due buf t = 0)
    (hsome : ∀ s, place = some s → SendOk w buf s) :
    FramesOk { w with sending := update w.sending buf place } := by
  have hb := h.bufs buf
  refine h.change (fun _ => h.null) ⟨⟨rfl, rfl, rfl⟩, ?_, fun _ _ => Iff.rfl⟩ Iff.rfl
    ⟨⟨?_, hb.counts.coupled, hb.counts.video, hb.counts.small⟩, hb.home, hb.out, ?_, ?_, hb.stale⟩
    h.fills ?_ (h.stops.congr rfl id fun _ _ => id)
  · intro k hk
    exact ⟨fun _ => rfl, fun _ _ _ _ hkey => hkey, rfl, rfl, rfl, rfl, rfl,
      update_of_ne hk _ _, rfl, .inl, fun _ => id⟩
  · intro s
    cases s <;> exact hb.counts.tally _
  · intro hs
    simp only [update_self] at hs
    exact hnone hs
  · intro s hs
    simp only [update_self] at hs
    exact (hsome s hs).congr (fun _ _ => rfl) rfl (fun _ _ hk => hk) rfl rfl rfl
  · intro r hr
    exact (h.returns r hr).congr (fun _ => rfl) (fun _ _ => id) rfl rfl rfl rfl id

theorem Together.needsQueue (h : Together t u) : t.needsQueue = true := by
  rcases h with ⟨ht, -⟩ | ⟨ht, -⟩
  · cases t <;> simp [store, FrameType.needsQueue] at ht ⊢
  · cases t <;> simp [store, FrameType.needsQueue] at ht ⊢

theorem send_ok (h : FramesOk w) (hsending : w.sending buf = some (.next t rest)) :
    ∃ w', w.send buf = some w' ∧ FramesOk w' := by
  have hsend := (h.bufs buf).sends _ hsending
  obtain ⟨hqueued, hlater⟩ := hsend.place
  have hdue := hqueued.due t mem_cons_self
  have hfew := hqueued.few t mem_cons_self
  rw [Frames.send, hsending]
  by_cases hempty : t.needsQueue = true ∧ w.frameQueue = []
  · refine ⟨w.stopSending buf, if_pos hempty, h.moved ?_ nofun⟩
    intro _ hpos
    exact absurd hempty.2 ((hlater hpos).2 hempty.1)
  have hfound : ¬ (t.needsQueue = true ∧ buf ∉ w.frameQueue) := by
    rintro ⟨hneeds, hmem⟩
    exact hsend.queue.elim (fun hnil => hempty ⟨hneeds, hnil⟩) hmem
  have hget : w.getFrameRefCount buf t = some (w.count t.store buf) :=
    valueFor_of_key (hqueued.key t mem_cons_self)
  simp only [if_neg hempty, if_neg hfound, hget, Option.bind_eq_bind, Option.bind_some]
  by_cases hstop : w.count t.store buf ≤ 0 ∨ (w.subscribers t.audience).length < w.count t.store buf
  · refine ⟨w.stopSending buf, if_pos hstop, h.moved ?_ nofun⟩
    -- a second type of which nothing is to be delivered is the last one
    intro _ hpos u
    obtain ⟨rfl, -⟩ := hlater hpos
    by_cases hu : u = t
    · rw [hu]
      omega
    · exact hsend.others u (by simpa [Sending.types] using hu)
  · push Not at hstop
    refine ⟨_, if_neg (by omega), h.moved nofun ?_⟩
    intro s hs
    cases hs
    refine ⟨hsend.together, hsend.callbacks, hsend.queue, hsend.others, ?_, ?_, ?_, ?_, ?_⟩
    · omega
    · omega
    · omega
    · exact ⟨fun u hu => hqueued.due u (mem_cons_of_mem _ hu),
        fun u hu => hqueued.few u (mem_cons_of_mem _ hu),
        fun u hu => hqueued.key u (mem_cons_of_mem _ hu)⟩
    · intro hrest hnil
      obtain ⟨u, rest', rfl⟩ := List.exists_cons_of_ne_nil hrest
      have htogether := (pairwise_cons.mp hsend.together).1 u mem_cons_self
      exact hempty ⟨htogether.needsQueue, hnil⟩

theorem tail_of_together (h : (t :: u :: rest).Pairwise Together) : rest = [] := by
  cases rest with
  | nil => rfl
  | cons v rest =>
    obtain ⟨hfirst, hrest⟩ := pairwise_cons.mp h
    have htu := hfirst u (by simp)
    have htv := hfirst v (by simp)
    have huv := (pairwise_cons.mp hrest).1 v (by simp)
    have hsame : u.store = v.store := by
      rcases htu with ⟨ht, hu⟩ | ⟨ht, hu⟩ <;> rcases htv with ⟨ht', hv⟩ | ⟨ht', hv⟩
      · rw [hu, hv]
      · rw [ht] at ht'
        cases ht'
      · rw [ht] at ht'
        cases ht'
      · rw [hu, hv]
    exact absurd hsame huv.store_ne

/-- The state after one callback. -/
def Frames.called (w : Frames) (buf : Int) (t : FrameType) (place : Option Sending) : Frames :=
  { w with
    sending := update w.sending buf place
    held := update w.held buf (update (w.held buf) t (w.held buf t + 1))
    due := update w.due buf (update (w.due buf) t (w.due buf t - 1))
    delivered := update w.delivered buf (w.delivered buf + 1) }

theorem called_due (w : Frames) (buf : Int) (t : FrameType) (place : Option Sending) :
    (w.called buf t place).due buf t = w.due buf t - 1 := by
  simp only [Frames.called, update_self]

theorem called_due_ne (w : Frames) (buf : Int) (hu : u ≠ t) (place : Option Sending) :
    (w.called buf t place).due buf u = w.due buf u := by
  simp only [Frames.called, update_self, update_of_ne hu]

theorem changes_called (w : Frames) (buf : Int) (t : FrameType) (place : Option Sending) :
    Changes w (w.called buf t place) buf := by
  refine ⟨⟨rfl, rfl, rfl⟩, ?_, fun _ _ => Iff.rfl⟩
  intro k hk
  exact ⟨fun _ => rfl, fun _ _ _ _ hkey => hkey, update_of_ne hk _ _,
    update_of_ne hk _ _, rfl, update_of_ne hk _ _, rfl,
    update_of_ne hk _ _, rfl, .inl, fun _ => id⟩

theorem called_owed (hdue : 0 < w.due buf t) (place : Option Sending) (s : Store) :
    (w.called buf t place).owed s buf = w.owed s buf := by
  cases s <;> cases t <;> simp [owed, Frames.called] <;> omega

theorem SendOk.rest_ne (h : SendOk w buf (.calling t i n rest)) : ∀ u ∈ rest, u ≠ t := by
  rintro u hu rfl
  exact ((pairwise_cons.mp h.together).1 u hu).store_ne rfl

theorem SendOk.queued_called (h : SendOk w buf (.calling t i n rest)) (place : Option Sending) :
    Queued (w.called buf t place) buf rest := by
  obtain ⟨-, -, -, hqueued, -⟩ := h.place
  exact hqueued.congr (fun _ _ => rfl) (fun u hu => called_due_ne w buf (h.rest_ne u hu) place)
    (fun _ _ hk => hk) rfl

theorem SendOk.again (h : SendOk w buf (.calling t i n rest)) (hmore : i + 1 < n)
    (place : Option Sending) :
    SendOk (w.called buf t place) buf (.calling t (i + 1) n rest) := by
  obtain ⟨-, hn, hdue, -, hqueue⟩ := h.place
  refine ⟨h.together, h.callbacks, h.queue, ?_, hmore, hn, ?_, h.queued_called place, hqueue⟩
  · intro u hu
    rw [called_due_ne w buf]
    · exact h.others u hu
    · rintro rfl
      exact hu mem_cons_self
  · rw [called_due, hdue]
    omega

theorem SendOk.last (h : SendOk w buf (.calling t i n (u :: rest))) (hlast : ¬ i + 1 < n)
    (place : Option Sending) : SendOk (w.called buf t place) buf (.next u rest) := by
  obtain ⟨hi, -, hdue, -, hqueue⟩ := h.place
  refine ⟨(pairwise_cons.mp h.together).2, ?_, h.queue, ?_, h.queued_called place, ?_⟩
  · intro v hv
    exact h.callbacks v (mem_cons_of_mem _ hv)
  · intro v hv
    by_cases hvt : v = t
    · rw [hvt, called_due]
      omega
    · rw [called_due_ne w buf hvt]
      apply h.others
      exact List.not_mem_cons_of_ne_of_not_mem hvt hv
  · intro _
    exact ⟨tail_of_together h.together, fun _ => hqueue (by simp)⟩

theorem SendOk.called (h : SendOk w buf (.calling t i n rest)) (place : Option Sending)
    {s : Sending}
    (hs : (if i + 1 < n then some (.calling t (i + 1) n rest) else Sending.ofTypes rest) = some s) :
    SendOk (w.called buf t place) buf s := by
  split at hs
  · next hmore =>
    cases hs
    exact h.again hmore place
  · next hlast =>
    cases rest with
    | nil => cases hs
    | cons u rest =>
      cases hs
      exact h.last hlast place

theorem SendOk.finished (h : SendOk w buf (.calling t i n rest)) (place : Option Sending)
    (hs : (if i + 1 < n then some (.calling t (i + 1) n rest) else Sending.ofTypes rest) = none)
    (u : FrameType) : (w.called buf t place).due buf u = 0 := by
  obtain ⟨hi, -, hdue, -, -⟩ := h.place
  split at hs
  · cases hs
  · next hlast =>
    cases rest with
    | nil =>
      by_cases hu : u = t
      · rw [hu, called_due]
        omega
      · rw [called_due_ne w buf hu]
        exact h.others u (by simpa [Sending.types] using hu)
    | cons v rest => cases hs

theorem callback_ok (h : FramesOk w) (hsending : w.sending buf = some (.calling t i n rest)) :
    ∃ w', w.callback buf = some w' ∧ FramesOk w' := by
  have hb := h.bufs buf
  have hsend := hb.sends _ hsending
  obtain ⟨hi, hn, hdue, -, -⟩ := hsend.place
  have hpos : 0 < w.due buf t := by omega
  have hcalled : (w.subscribers t.audience)[i]? = some true := by
    have hlt : i < (w.subscribers t.audience).length := by omega
    rw [List.getElem?_eq_getElem hlt]
    exact congrArg some (hsend.callbacks t mem_cons_self _ (List.getElem_mem hlt))
  have hcount : w.count t.store buf ≠ 0 := by
    have htally := hb.counts.tally t.store
    have hle := held_due_le_owed w t buf
    omega
  obtain ⟨place, hplace⟩ : ∃ place,
      (if i + 1 < n then some (.calling t (i + 1) n rest) else Sending.ofTypes rest) = place :=
    ⟨_, rfl⟩
  have hcounts : CountsOk (w.called buf t place) buf := by
    refine ⟨?_, hb.counts.coupled, hb.counts.video, hb.counts.small⟩
    intro s
    rw [called_owed hpos]
    cases s <;> exact hb.counts.tally _
  have hok : BufOk (w.called buf t place) buf := by
    refine ⟨hcounts, ?_, ?_, ?_, ?_, ?_⟩
    · intro hdev
      exact absurd ((hb.home hdev).1 t.store) hcount
    · intro hdev
      exact ⟨(hb.out hdev).1, fun _ => .inl ⟨t.store, hcount⟩⟩
    · intro hs _
      simp only [Frames.called, update_self] at hs
      exact hsend.finished place (hplace.trans hs)
    · intro s hs
      simp only [Frames.called, update_self] at hs
      exact hsend.called place (hplace.trans hs)
    · rw [called_owed hpos]
      exact hb.stale
  refine ⟨w.called buf t place, ?_, h.change (fun _ => h.null) (changes_called w buf t place)
    Iff.rfl hok h.fills ?_ (h.stops.congr rfl id fun _ _ => id)⟩
  · rw [Frames.callback, hsending]
    simp only [hcalled, hplace]
    rfl
  · intro r hr
    exact (h.returns r hr).congr (fun _ => rfl) (fun _ _ => id) rfl rfl rfl rfl id

/-! ## Runs -/

theorem count_initial {preview kept capture previewData : List Int}
    {subscribers : Audience → List Bool} {frameQueue : List Int} (s : Store) (buf : Int) :
    (initial preview kept capture previewData subscribers frameQueue).count s buf =
      if s = .preview ∧ buf ∈ kept then 1 else 0 := by
  cases s with
  | preview =>
    simp only [Frames.count, initial, valueFor_foldl, true_and]
    split
    · rfl
    · split <;> rfl
  | video => rfl
  | capture =>
    simp only [Frames.count, initial, valueFor_foldl]
    split <;> rfl
  | previewData =>
    simp only [Frames.count, initial, valueFor_foldl]
    split <;> rfl

theorem initial_ok (preview kept capture previewData : List Int)
    (subscribers : Audience → List Bool) (frameQueue : List Int) :
    FramesOk (initial preview kept capture previewData subscribers frameQueue) := by
  refine ⟨⟨?_, fun _ => rfl⟩, rfl, ?_, nofun, nofun, ⟨fun hne => absurd rfl hne, nofun⟩⟩
  · exact fun hfilming => absurd hfilming.1 Bool.false_ne_true
  · intro buf
    refine ⟨⟨?_, ?_, ?_, ?_⟩, ?_, ?_, fun _ _ _ => rfl, nofun, fun hne => absurd rfl hne⟩
    · intro s
      rw [count_initial]
      cases s <;> by_cases hk : buf ∈ kept <;>
        simp [owed, staleIn, initial, hk]
    · intro s s' hne hs hs'
      rw [count_initial] at hs hs'
      simp only [ne_eq, ite_eq_right_iff, Classical.not_imp] at hs hs'
      exact absurd (hs.1.1.trans hs'.1.1.symm) hne
    · rw [count_initial]
      simp
    · intro s
      rw [count_initial]
      cases s <;> simp [Store.stored]
    · intro hdev
      have hk : buf ∉ kept := by simpa [initial] using hdev
      refine ⟨?_, Nat.zero_le _, ?_⟩
      · intro s
        rw [count_initial, if_neg (fun hand => hk hand.2)]
      · simp [initial, hk]
    · intro hdev
      have hk : buf ∈ kept := by simpa [initial] using hdev
      refine ⟨rfl, fun _ => .inl ⟨.preview, ?_⟩⟩
      rw [count_initial, if_pos ⟨rfl, hk⟩]
      decide

theorem frames_step_ok {e : FrameEvent} (h : FramesOk w) (hok : FrameOk w e) :
    ∃ w', w.step e = some w' ∧ FramesOk w' := by
  obtain ⟨hposs, hguard⟩ := hok
  cases e with
  | deliver buf mask => exact ⟨_, rfl, deliver_ok h hposs hguard⟩
  | send buf =>
    obtain ⟨t, rest, hs⟩ := hposs
    exact send_ok h hs
  | callback buf =>
    obtain ⟨t, i, n, rest, hs⟩ := hposs
    exact callback_ok h hs
  | giveBack buf t => exact giveBack_ok h hposs.1 hposs.2.1 hposs.2.2
  | look =>
    obtain ⟨r, hr, hother⟩ := hposs
    exact look_ok h hr hother hguard
  | endReturn =>
    obtain ⟨r, o, hr, ho⟩ := hposs
    exact endReturn_ok h hr ho
  | startVideoCapture => exact ⟨_, rfl, startVideoCapture_ok h hposs⟩
  | stopVideoCapture => exact ⟨_, rfl, stopVideoCapture_ok h hposs⟩
  | stopStep => exact stopStep_ok h hposs hguard

/-- In every run all of whose steps meet `FrameOk`, no buffer is given to the device while
somebody holds it, and each frame that was delivered is given back once. -/
theorem frames_owned (preview kept capture previewData : List Int)
    (subscribers : Audience → List Bool) (frameQueue : List Int) (events : List FrameEvent)
    (h : Guarded Frames.step FrameOk
      (initial preview kept capture previewData subscribers frameQueue) events) :
    Always Frames.step Owned
      (initial preview kept capture previewData subscribers frameQueue) events :=
  h.always (fun _ hok => hok.owned) (fun _ _ hok hG => frames_step_ok hok hG)
    (initial_ok preview kept capture previewData subscribers frameQueue)

/-- A preview frame is returned, and the video frame in its buffer is taken back. -/
theorem frames_owned_takenBack : Always Frames.step Owned
    (initial [8] [] [] [] (fun _ => [true]) [8])
    [.startVideoCapture, .deliver 8 0x11, .send 8, .callback 8, .send 8, .callback 8,
      .giveBack 8 .previewFrameSync, .look, .stopVideoCapture, .endReturn, .stopStep, .stopStep,
      .look, .endReturn, .stopStep, .stopStep] :=
  frames_owned _ _ _ _ _ _ _ (by decide +kernel)

/-- Two subscribers hold a video frame when video capture is stopped: nobody holds the
buffer any more, and it is never given back. An image that goes out as a raw image too has
one count for both: the first return gives the buffer to the device while the other
subscriber holds it. A preview frame that is returned between `clear()` and
`mRecording = false` is looked up in the empty table. -/
theorem frames_not_owned :
    (Guarded Frames.step Possible (initial [8] [] [] [] (fun _ => [true, true]) [8])
        [.startVideoCapture, .deliver 8 0x10, .send 8, .callback 8, .callback 8,
          .stopVideoCapture, .stopStep, .stopStep, .look, .endReturn, .stopStep, .stopStep] ∧
      ¬ Always Frames.step Owned (initial [8] [] [] [] (fun _ => [true, true]) [8])
        [.startVideoCapture, .deliver 8 0x10, .send 8, .callback 8, .callback 8,
          .stopVideoCapture, .stopStep, .stopStep, .look, .endReturn, .stopStep, .stopStep]) ∧
    (Guarded Frames.step Possible (initial [] [] [8] [] (fun _ => [true]) [])
        [.deliver 8 0x108, .send 8, .callback 8, .send 8, .callback 8, .giveBack 8 .imageFrame,
          .look, .endReturn] ∧
      ¬ Always Frames.step Owned (initial [] [] [8] [] (fun _ => [true]) [])
        [.deliver 8 0x108, .send 8, .callback 8, .send 8, .callback 8, .giveBack 8 .imageFrame,
          .look, .endReturn]) ∧
    Guarded Frames.step Possible (initial [8] [] [] [] (fun _ => [true]) [8])
      [.startVideoCapture, .deliver 8 0x01, .send 8, .callback 8, .stopVideoCapture, .stopStep,
        .stopStep, .giveBack 8 .previewFrameSync, .look, .endReturn] ∧
    ¬ Always Frames.step Owned (initial [8] [] [] [] (fun _ => [true]) [8])
      [.startVideoCapture, .deliver 8 0x01, .send 8, .callback 8, .stopVideoCapture, .stopStep,
        .stopStep, .giveBack 8 .previewFrameSync, .look, .endReturn] := by
  refine ⟨⟨by decide +kernel, ?_⟩, ⟨by decide +kernel, ?_⟩, by decide +kernel, ?_⟩
  · intro h
    obtain ⟨w, hw, howned⟩ := h.last
    cases hw
    have hback := howned.back 8 (by decide +kernel) rfl (by decide +kernel) nofun
    exact absurd hback (by decide +kernel)
  · intro h
    obtain ⟨w, hw, howned⟩ := h.last
    cases hw
    exact absurd (howned.unheld (8, 1) (by decide +kernel)) (by decide)
  · intro h
    obtain ⟨w, hw, -⟩ := h.last
    cases hw

end Omap4Hal.Camera

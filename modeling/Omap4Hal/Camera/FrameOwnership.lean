import Omap4Hal.Camera.Frames

/- Who holds the frames of the camera adapter. The invariant is about one buffer at a time
   (`BufOk`): each of its four counts is the number of deliveries that are held or still to
   be made, but for what `stopVideoCapture` leaves of a video count until it clears the table;
   at most the counts of preview and video buffers are above zero together; and the buffer is
   with the device exactly if it has been given back. A `returnFrame` that is under way has
   an invariant of its own (`Return.Ok`).

   Each step changes one buffer; `SameAt` says that the others keep what is theirs. -/
namespace Omap4Hal.Camera

open Lib
open Function (update update_of_ne update_self)
open Frames
open FrameType
open KeyedVector

/-! ## Counts -/

theorem count_setFrameRefCount (w : Frames) (buf buf' : Int) (t : FrameType) (n : Int) (s : Store) :
    (w.setFrameRefCount buf t n).count s buf' =
      if s = t.store ∧ buf' = buf then t.store.stored n else w.count s buf' := by
  rw [Frames.count, setFrameRefCount]
  by_cases hs : s = t.store
  · subst hs
    simp only [update_self, valueFor_add, true_and]
    split
    · rfl
    · rfl
  · simp only [update_of_ne hs, hs, false_and, if_false]
    rfl

variable {w w' u : Frames} {buf : Int} {t : FrameType} {s : Store}

theorem keys_setFrameRefCount {k : Int} {n : Int} :
    k ∈ ((w.setFrameRefCount buf t n).available s).keys ↔
      (s = t.store ∧ k = buf) ∨ k ∈ (w.available s).keys := by
  rw [setFrameRefCount]
  by_cases hs : s = t.store
  · subst hs
    simp only [update_self, mem_keys_add, true_and]
  · simp only [update_of_ne hs, hs, false_and, false_or]

theorem valueFor_of_count (h : w.count s buf ≠ 0) :
    (w.available s).valueFor buf = some (w.count s buf) := by
  rw [Frames.count] at h ⊢
  cases hval : (w.available s).valueFor buf with
  | none => simp [hval] at h
  | some n => rfl

theorem valueFor_of_key (h : buf ∈ (w.available s).keys) :
    (w.available s).valueFor buf = some (w.count s buf) := by
  obtain ⟨n, hn⟩ := mem_keys_iff.mp h
  rw [Frames.count, hn]
  rfl

theorem stored_bounds (s : Store) (n : Nat) : 0 ≤ s.stored n ∧ s.stored n ≤ n := by
  cases s <;> simp only [Store.stored]
  · omega
  · omega
  · split <;> omega
  · split <;> omega

theorem stored_pred {c : Int} (hc : 0 < c) (hsmall : s.stored c = c) :
    s.stored (c - 1) = c - 1 := by
  cases s with
  | preview => rfl
  | video => rfl
  | capture =>
    simp only [Store.stored] at hsmall ⊢
    split at hsmall <;> split <;> omega
  | previewData =>
    simp only [Store.stored] at hsmall ⊢
    split at hsmall <;> split <;> omega

/-! ## The invariant -/

/-- The deliveries of a buffer that are held or still to be made, for one table. -/
def Frames.owed (w : Frames) (s : Store) (buf : Int) : Nat :=
  match s with
  | .preview => w.held buf .previewFrameSync + w.due buf .previewFrameSync +
      (w.held buf .snapshotFrame + w.due buf .snapshotFrame)
  | .video => w.held buf .videoFrameSync + w.due buf .videoFrameSync
  | .capture => w.held buf .imageFrame + w.due buf .imageFrame +
      (w.held buf .rawFrame + w.due buf .rawFrame)
  | .previewData => w.held buf .frameDataSync + w.due buf .frameDataSync

theorem held_due_le_owed (w : Frames) (t : FrameType) (buf : Int) :
    w.held buf t + w.due buf t ≤ w.owed t.store buf := by
  cases t <;> simp only [store, Frames.owed] <;> omega

/-- The types that are still to be sent. -/
structure Queued (w : Frames) (buf : Int) (types : List FrameType) : Prop where
  due : ∀ t ∈ types, w.count t.store buf = w.due buf t
  few : ∀ t ∈ types, w.count t.store buf ≤ (w.subscribers t.audience).length
  key : ∀ t ∈ types, buf ∈ (w.available t.store).keys

/-- `sendFrameToSubscribers` is in the middle of a delivery. -/
structure SendOk (w : Frames) (buf : Int) (s : Sending) : Prop where
  together : s.types.Pairwise Together
  callbacks : ∀ t ∈ s.types, ∀ b ∈ w.subscribers t.audience, b = true
  queue : w.frameQueue = [] ∨ buf ∈ w.frameQueue
  others : ∀ t, t ∉ s.types → w.due buf t = 0
  place : match s with
    | .next t rest => Queued w buf (t :: rest) ∧
      (0 < w.delivered buf → rest = [] ∧ (t.needsQueue = true → w.frameQueue ≠ []))
    | .calling t i n rest => i < n ∧ n ≤ (w.subscribers t.audience).length ∧
      w.due buf t = n - i ∧ Queued w buf rest ∧ (rest ≠ [] → w.frameQueue ≠ [])

/-- What the table of video buffers has of deliveries that were taken back. -/
def Frames.staleIn (w : Frames) (s : Store) (buf : Int) : Nat :=
  match s with
  | .video => w.stale buf
  | _ => 0

structure CountsOk (w : Frames) (buf : Int) : Prop where
  tally : ∀ s, w.count s buf = w.owed s buf + w.staleIn s buf
  coupled : ∀ s s', s ≠ s' → w.count s buf ≠ 0 → w.count s' buf ≠ 0 →
    s = .preview ∧ s' = .video ∨ s = .video ∧ s' = .preview
  video : w.count .video buf ≠ 0 → w.Filming
  small : ∀ s, s.stored (w.count s buf) = w.count s buf

/-- A preview or snapshot frame is held, or has been returned by a `returnFrame` that has not
looked at `mRecording`. -/
def Frames.Kept (w : Frames) (buf : Int) : Prop :=
  0 < w.count .preview buf ∨
    ∃ r, w.returning = some r ∧ r.buf = buf ∧ r.own.store = .preview ∧ r.other = none

structure BufOk (w : Frames) (buf : Int) : Prop where
  counts : CountsOk w buf
  home : w.withDevice buf = true → (∀ s, w.count s buf = 0) ∧ w.filled buf ≤ 1 ∧
    (0 < w.delivered buf → w.filled buf = 1)
  out : w.withDevice buf = false → w.filled buf = 0 ∧
    (0 < w.delivered buf → (∃ s, w.count s buf ≠ 0) ∨ w.InReturn buf)
  settled : w.sending buf = none → 0 < w.delivered buf → ∀ t, w.due buf t = 0
  sends : ∀ s, w.sending buf = some s → SendOk w buf s
  stale : w.stale buf ≠ 0 → w.owed .video buf = 0 ∧ w.Kept buf

/-- What holds of a `returnFrame` that is under way. -/
structure Return.Ok (w : Frames) (r : Return) : Prop where
  buf : r.buf ≠ 0
  away : w.withDevice r.buf = false ∧ w.filled r.buf = 0
  own : w.count r.own.store r.buf = r.refCount
  stop : r.stop = true → ∃ i, w.stopping = some (.inReturn i)
  alone : r.stop = false → r.own.store = .video → w.stale r.buf = 0
  key : r.own.store = .preview ∨ r.own.store = .video → r.buf ∈ (w.available .preview).keys
  before : r.other = none → ∀ s, s ≠ r.own.store → w.count s r.buf ≠ 0 → w.recording = true ∧
    (s = .preview ∧ r.own.store = .video ∨ s = .video ∧ r.own.store = .preview)
  after : ∀ o, r.other = some o → (∀ t, o = some t → r.buf ∈ (w.available t.store).keys) ∧
    ∀ s, s ≠ r.own.store → w.count s r.buf ≠ 0 → ∃ t, o = some t ∧ t.store = s

/-- The table of video buffers is there while filming, with the keys of the preview
buffers. -/
structure KeysOk (w : Frames) : Prop where
  on : w.Filming → ∀ k, k ∈ (w.available .video).keys ↔ k ∈ (w.available .preview).keys
  off : ¬ w.Filming → (w.available .video).keys = []

structure StopsOk (w : Frames) : Prop where
  recording : w.stopping ≠ none → w.recording = true
  taking : ∀ i buf, w.stopping = some (.taking i buf) →
    buf ≠ 0 ∧ buf ∈ (w.available .video).keys

structure FramesOk (w : Frames) : Prop where
  keys : KeysOk w
  null : w.count .video 0 = 0
  bufs : ∀ buf, BufOk w buf
  fills : ∀ f ∈ w.fills, f.2 = 0
  returns : ∀ r, w.returning = some r → r.Ok w
  stops : StopsOk w

theorem owed_eq_zero (hheld : ∀ u, w.held buf u = 0)
    (hdue : ∀ u : FrameType, u.store = s → w.due buf u = 0) : w.owed s buf = 0 := by
  cases s with
  | preview => simp [Frames.owed, hheld, hdue .previewFrameSync rfl, hdue .snapshotFrame rfl]
  | video => simp [Frames.owed, hheld, hdue .videoFrameSync rfl]
  | capture => simp [Frames.owed, hheld, hdue .imageFrame rfl, hdue .rawFrame rfl]
  | previewData => simp [Frames.owed, hheld, hdue .frameDataSync rfl]

theorem CountsOk.nonneg (h : CountsOk w buf) (s : Store) : 0 ≤ w.count s buf := by
  rw [h.tally]
  omega

theorem CountsOk.forgotten (h : CountsOk w buf) (hzero : ∀ s, w.count s buf = 0) (t : FrameType) :
    w.held buf t = 0 ∧ w.due buf t = 0 := by
  have hle := held_due_le_owed w t buf
  have htally := h.tally t.store
  rw [hzero t.store] at htally
  omega

theorem CountsOk.not_stale (h : CountsOk w buf) (hzero : w.count .video buf = 0) :
    w.stale buf = 0 := by
  have htally := h.tally .video
  simp only [hzero, staleIn] at htally
  omega

theorem FramesOk.owned (h : FramesOk w) : Owned w := by
  refine ⟨h.fills, ?_, ?_⟩
  · intro buf
    cases hdev : w.withDevice buf with
    | true => exact ((h.bufs buf).home hdev).2.1
    | false => rw [((h.bufs buf).out hdev).1]; omega
  · intro buf hdelivered hsending hholders hover
    have hb := h.bufs buf
    cases hdev : w.withDevice buf with
    | true => exact (hb.home hdev).2.2 hdelivered
    | false =>
      -- some count is above zero, but nothing is held and nothing is still to be delivered
      obtain ⟨s, hs⟩ := ((hb.out hdev).2 hdelivered).resolve_right hover
      have hheld : ∀ t, w.held buf t = 0 := by
        simp only [holders, FrameType.all, List.map_cons, List.map_nil, List.sum_cons,
          List.sum_nil] at hholders
        intro t
        cases t <;> omega
      have howed : ∀ s, w.owed s buf = 0 := fun s =>
        owed_eq_zero hheld fun t _ => hb.settled hsending hdelivered t
      have hstale : w.stale buf ≠ 0 := by
        intro hzero
        apply hs
        rw [hb.counts.tally, howed]
        cases s <;> simp [staleIn, hzero]
      rcases (hb.stale hstale).2 with hpreview | ⟨r, hr, hbuf, _⟩
      · rw [hb.counts.tally, howed] at hpreview
        simp [staleIn] at hpreview
      · exact absurd ⟨r, hr, hbuf⟩ hover

/-! ## What a step leaves alone -/

/-- The types that are still to be sent, without the one being sent. -/
def Sending.pending : Sending → List FrameType
  | .next t rest => t :: rest
  | .calling _ _ _ rest => rest

/-- The two states agree in all that the invariant says of a buffer. -/
structure SameAt (w w' : Frames) (buf : Int) : Prop where
  count : ∀ s, w'.count s buf = w.count s buf
  keys : ∀ s, w.sending buf = some s → ∀ t ∈ s.pending,
    buf ∈ (w.available t.store).keys → buf ∈ (w'.available t.store).keys
  held : w'.held buf = w.held buf
  due : w'.due buf = w.due buf
  withDevice : w'.withDevice buf = w.withDevice buf
  delivered : w'.delivered buf = w.delivered buf
  filled : w'.filled buf = w.filled buf
  sending : w'.sending buf = w.sending buf
  stale : w'.stale buf = w.stale buf
  inReturn : w.InReturn buf → w'.InReturn buf ∨ ∃ s, w.count s buf ≠ 0
  kept : w.stale buf ≠ 0 → w.Kept buf → w'.Kept buf

structure SameGlobals (w w' : Frames) : Prop where
  recording : w'.recording = w.recording
  subscribers : w'.subscribers = w.subscribers
  frameQueue : w'.frameQueue = w.frameQueue

theorem SameAt.owed (h : SameAt w w' buf) (s : Store) :
    w'.owed s buf = w.owed s buf := by
  cases s <;> simp only [Frames.owed, h.held, h.due]

theorem Queued.congr {types : List FrameType} (h : Queued w buf types)
    (hcount : ∀ t ∈ types, w'.count t.store buf = w.count t.store buf)
    (hdue : ∀ t ∈ types, w'.due buf t = w.due buf t)
    (hkeys : ∀ t ∈ types, buf ∈ (w.available t.store).keys → buf ∈ (w'.available t.store).keys)
    (hsubs : w'.subscribers = w.subscribers) : Queued w' buf types := by
  refine ⟨?_, ?_, ?_⟩
  · intro t ht
    rw [hcount t ht, hdue t ht]
    exact h.due t ht
  · intro t ht
    rw [hcount t ht, hsubs]
    exact h.few t ht
  · intro t ht
    exact hkeys t ht (h.key t ht)

theorem SendOk.congr {s : Sending} (h : SendOk w buf s)
    (hcount : ∀ t ∈ s.pending, w'.count t.store buf = w.count t.store buf)
    (hdue : w'.due buf = w.due buf)
    (hkeys : ∀ t ∈ s.pending, buf ∈ (w.available t.store).keys → buf ∈ (w'.available t.store).keys)
    (hdelivered : w'.delivered buf = w.delivered buf) (hsubs : w'.subscribers = w.subscribers)
    (hqueue : w'.frameQueue = w.frameQueue) : SendOk w' buf s := by
  have hdue' : ∀ t, w'.due buf t = w.due buf t := fun t => congrFun hdue t
  refine ⟨h.together, hsubs ▸ h.callbacks, hqueue ▸ h.queue, ?_, ?_⟩
  · intro t ht
    rw [hdue' t]
    exact h.others t ht
  · have hplace := h.place
    cases s with
    | next t rest =>
      refine ⟨hplace.1.congr hcount (fun t _ => hdue' t) hkeys hsubs, ?_⟩
      rw [hdelivered, hqueue]
      exact hplace.2
    | calling t i n rest =>
      obtain ⟨hi, hn, hd, hq, hrest⟩ := hplace
      refine ⟨hi, hsubs ▸ hn, (hdue' t).trans hd, ?_, hqueue ▸ hrest⟩
      exact hq.congr hcount (fun t _ => hdue' t) hkeys hsubs

theorem BufOk.congr (h : BufOk w buf) (hsame : SameAt w w' buf)
    (hvideo : w.count .video buf ≠ 0 → w'.Filming) (hsubs : w'.subscribers = w.subscribers)
    (hqueue : w'.frameQueue = w.frameQueue) :
    BufOk w' buf := by
  have hstale : ∀ s, w'.staleIn s buf = w.staleIn s buf := by
    intro s
    cases s <;> first | rfl | exact hsame.stale
  refine ⟨⟨?_, ?_, ?_, ?_⟩, ?_, ?_, ?_, ?_, ?_⟩
  · intro s
    rw [hsame.count, hsame.owed, hstale]
    exact h.counts.tally s
  · intro s s'
    rw [hsame.count, hsame.count]
    exact h.counts.coupled s s'
  · rw [hsame.count]
    exact hvideo
  · intro s
    rw [hsame.count]
    exact h.counts.small s
  · rw [hsame.withDevice, hsame.filled, hsame.delivered]
    intro hdev
    refine ⟨?_, (h.home hdev).2⟩
    intro s
    rw [hsame.count]
    exact (h.home hdev).1 s
  · rw [hsame.withDevice, hsame.filled, hsame.delivered]
    intro hdev
    refine ⟨(h.out hdev).1, ?_⟩
    intro hdelivered
    have hsome : w'.InReturn buf ∨ ∃ s, w.count s buf ≠ 0 :=
      ((h.out hdev).2 hdelivered).elim .inr hsame.inReturn
    exact hsome.symm.imp_left fun ⟨s, hs⟩ => ⟨s, by rwa [hsame.count]⟩
  · rw [hsame.sending, hsame.delivered, hsame.due]
    exact h.settled
  · intro s hs
    rw [hsame.sending] at hs
    exact (h.sends s hs).congr (fun t _ => hsame.count t.store) hsame.due (hsame.keys s hs)
      hsame.delivered hsubs hqueue
  · rw [hsame.stale, hsame.owed]
    intro hne
    exact ⟨(h.stale hne).1, hsame.kept hne (h.stale hne).2⟩

theorem Return.Ok.congr {r : Return} (h : r.Ok w) (hcount : ∀ s, w'.count s r.buf = w.count s r.buf)
    (hkeys : ∀ s k, k ∈ (w.available s).keys → k ∈ (w'.available s).keys)
    (hdev : w'.withDevice r.buf = w.withDevice r.buf) (hfilled : w'.filled r.buf = w.filled r.buf)
    (hstale : w'.stale r.buf = w.stale r.buf) (hstop : w'.stopping = w.stopping)
    (hrec : w.recording = true → w'.recording = true) : r.Ok w' := by
  refine ⟨h.buf, ?_, ?_, ?_, ?_, fun ht => hkeys _ _ (h.key ht), ?_, ?_⟩
  · rw [hdev, hfilled]
    exact h.away
  · rw [hcount]
    exact h.own
  · rw [hstop]
    exact h.stop
  · rw [hstale]
    exact h.alone
  · intro hother s hs hne
    rw [hcount] at hne
    exact (h.before hother s hs hne).imp_left hrec
  · intro o ho
    obtain ⟨hkey, hrest⟩ := h.after o ho
    refine ⟨fun t ht => hkeys _ _ (hkey t ht), ?_⟩
    intro s hs hne
    rw [hcount] at hne
    exact hrest s hs hne

theorem StopsOk.congr (h : StopsOk w) (hstop : w'.stopping = w.stopping)
    (hrec : w.recording = true → w'.recording = true)
    (hkeys : ∀ s k, k ∈ (w.available s).keys → k ∈ (w'.available s).keys) : StopsOk w' := by
  refine ⟨?_, ?_⟩
  · rw [hstop]
    exact fun hne => hrec (h.recording hne)
  · rw [hstop]
    exact fun i buf ht => (h.taking i buf ht).imp_right (hkeys _ _)

/-- A step that changes one buffer. -/
structure Changes (w w' : Frames) (buf : Int) : Prop where
  globals : SameGlobals w w'
  others : ∀ k, k ≠ buf → SameAt w w' k
  keys : ∀ s k, k ∈ (w'.available s).keys ↔ k ∈ (w.available s).keys

theorem KeysOk.congr (h : KeysOk w) (hfilm : w'.Filming ↔ w.Filming)
    (hkeys : ∀ s k, k ∈ (w'.available s).keys ↔ k ∈ (w.available s).keys) : KeysOk w' := by
  refine ⟨?_, ?_⟩
  · intro hon k
    rw [hkeys, hkeys]
    exact h.on (hfilm.mp hon) k
  · intro hoff
    apply List.eq_nil_iff_forall_not_mem.mpr
    intro k hk
    rw [hkeys, h.off (mt hfilm.mpr hoff)] at hk
    cases hk

theorem FramesOk.change (h : FramesOk w) (hnull : buf = 0 → w'.count .video 0 = 0)
    (hchange : Changes w w' buf) (hfilm : w'.Filming ↔ w.Filming) (hbuf : BufOk w' buf)
    (hfills : ∀ f ∈ w'.fills, f.2 = 0) (hreturns : ∀ r, w'.returning = some r → r.Ok w')
    (hstops : StopsOk w') : FramesOk w' := by
  refine ⟨h.keys.congr hfilm hchange.keys, ?_, ?_, hfills, hreturns, hstops⟩
  · by_cases hz : buf = 0
    · exact hnull hz
    · rw [(hchange.others 0 (Ne.symm hz)).count]
      exact h.null
  intro k
  by_cases hk : k = buf
  · exact hk ▸ hbuf
  · refine (h.bufs k).congr (hchange.others k hk) ?_ hchange.globals.subscribers
      hchange.globals.frameQueue
    rw [hfilm]
    exact (h.bufs k).counts.video

/-! ## A frame is returned -/

theorem key_of_count (h : w.count s buf ≠ 0) :
    buf ∈ (w.available s).keys :=
  mem_keys_iff.mpr ⟨_, valueFor_of_count h⟩

theorem keys_set (hkey : buf ∈ (w.available t.store).keys) (n : Int) (s : Store) (k : Int) :
    k ∈ ((w.setFrameRefCount buf t n).available s).keys ↔ k ∈ (w.available s).keys := by
  rw [keys_setFrameRefCount]
  refine or_iff_right_of_imp ?_
  rintro ⟨rfl, rfl⟩
  exact hkey

/-- The state when `returnFrame` has lowered the count. -/
def Frames.lowered (w : Frames) (buf : Int) (t : FrameType) (stop : Bool) : Frames :=
  { w.setFrameRefCount buf t (w.count t.store buf - 1) with
    returning := some
      { buf := buf, own := t, refCount := w.count t.store buf - 1, stop := stop } }

theorem returnFrame_eq (hbuf : buf ≠ 0) (hpos : 0 < w.count t.store buf) (stop : Bool) :
    w.returnFrame buf t stop = some (w.lowered buf t stop) := by
  have hget : w.getFrameRefCount buf t = some (w.count t.store buf) :=
    valueFor_of_count (Int.ne_of_gt hpos)
  simp only [Frames.returnFrame, if_neg hbuf, hget, Option.bind_eq_bind, Option.bind_some,
    if_pos hpos]
  rfl

/-- The history of a buffer in `u` is that in `w` without the deliveries that one `returnFrame`
of the type counts off. -/
structure Forgets (w u : Frames) (buf : Int) (t : FrameType) (stop : Bool) : Prop where
  same : u = { w with held := u.held, due := u.due, stale := u.stale, stopping := u.stopping }
  others : ∀ k, k ≠ buf → u.held k = w.held k ∧ u.due k = w.due k ∧ u.stale k = w.stale k
  balance : ∀ s, u.owed s buf + u.staleIn s buf + (if s = t.store then 1 else 0) =
    w.owed s buf + w.staleIn s buf
  due : ∀ v, u.due buf v ≤ w.due buf v
  sends : ∀ s, w.sending buf = some s → SendOk u buf s ∧ ∀ v ∈ s.pending, v.store ≠ t.store
  stale : u.stale buf ≠ 0 →
    u.owed .video buf = 0 ∧ (t.store = .preview ∨ 0 < w.count .preview buf)
  filming : u.Filming ↔ w.Filming
  stops : StopsOk u
  inStop : stop = true → ∃ i, u.stopping = some (.inReturn i)
  alone : stop = false → t.store = .video → u.stale buf = 0

theorem BufOk.away (h : BufOk w buf) (hcount : w.count s buf ≠ 0) :
    w.withDevice buf = false ∧ w.filled buf = 0 := by
  cases hdev : w.withDevice buf with
  | true => exact absurd ((h.home hdev).1 s) hcount
  | false => exact ⟨rfl, (h.out hdev).1⟩

section Lowered

variable {stop : Bool}

theorem Forgets.count_pos (hf : Forgets w u buf t stop) (h : BufOk w buf) :
    0 < w.count t.store buf := by
  have hone := hf.balance t.store
  have htally := h.counts.tally t.store
  rw [if_pos rfl] at hone
  omega

theorem Forgets.count (hf : Forgets w u buf t stop) (s : Store) (k : Int) :
    u.count s k = w.count s k := by
  rw [hf.same]
  rfl

theorem Forgets.lowered_count (hf : Forgets w u buf t stop) (h : BufOk w buf) (s : Store) :
    (u.lowered buf t stop).count s buf = w.count s buf - if s = t.store then 1 else 0 := by
  refine (count_setFrameRefCount ..).trans ?_
  rw [hf.count, hf.count]
  by_cases hs : s = t.store
  · rw [if_pos ⟨hs, rfl⟩, if_pos hs, hs]
    exact stored_pred (hf.count_pos h) (h.counts.small t.store)
  · rw [if_neg (fun hand => hs hand.1), if_neg hs, Int.sub_zero]

theorem Forgets.lowered_count_ne (hf : Forgets w u buf t stop) {k : Int} (hk : k ≠ buf)
    (s : Store) : (u.lowered buf t stop).count s k = w.count s k := by
  refine (count_setFrameRefCount ..).trans ?_
  rw [if_neg (fun hand => hk hand.2), hf.count]

theorem Forgets.ne_zero (hf : Forgets w u buf t stop) (h : BufOk w buf)
    (hs : (u.lowered buf t stop).count s buf ≠ 0) : w.count s buf ≠ 0 := by
  have hpos := hf.count_pos h
  rw [hf.lowered_count h] at hs
  by_cases hst : s = t.store
  · rw [hst]
    omega
  · rw [if_neg hst] at hs
    omega

theorem Forgets.keys (hf : Forgets w u buf t stop) (h : BufOk w buf) (s : Store) (k : Int) :
    k ∈ ((u.lowered buf t stop).available s).keys ↔ k ∈ (w.available s).keys := by
  have hpos := hf.count_pos h
  rw [← hf.count] at hpos
  refine (keys_set (key_of_count (Int.ne_of_gt hpos)) _ s k).trans ?_
  rw [hf.same]

theorem Forgets.lowered_owed (u : Frames) (s : Store) :
    (u.lowered buf t stop).owed s buf = u.owed s buf := by
  cases s <;> rfl

theorem Forgets.bufOk (hf : Forgets w u buf t stop) (h : BufOk w buf) :
    BufOk (u.lowered buf t stop) buf := by
  have hpos := hf.count_pos h
  have haway := h.away (Int.ne_of_gt hpos)
  have hrec : (u.lowered buf t stop).Filming ↔ w.Filming := hf.filming
  have hstale : ∀ s, (u.lowered buf t stop).staleIn s buf = u.staleIn s buf := by
    intro s
    cases s <;> rfl
  refine ⟨⟨?_, ?_, ?_, ?_⟩, ?_, ?_, ?_, ?_, ?_⟩
  · intro s
    have hbalance := hf.balance s
    have htally := h.counts.tally s
    rw [hf.lowered_count h, Forgets.lowered_owed, hstale]
    by_cases hs : s = t.store
    · rw [if_pos hs] at hbalance ⊢
      omega
    · rw [if_neg hs] at hbalance ⊢
      omega
  · intro s s' hne hs hs'
    exact h.counts.coupled s s' hne (hf.ne_zero h hs) (hf.ne_zero h hs')
  · intro hv
    exact hrec.mpr (h.counts.video (hf.ne_zero h hv))
  · intro s
    rw [hf.lowered_count h]
    split
    · next hs =>
      rw [hs]
      exact stored_pred hpos (h.counts.small t.store)
    · rw [Int.sub_zero]
      exact h.counts.small s
  · intro hdev
    have hdev' : u.withDevice buf = true := hdev
    rw [hf.same] at hdev'
    exact absurd (haway.1.symm.trans hdev') Bool.false_ne_true
  · intro _
    refine ⟨?_, fun _ => .inr ⟨_, rfl, rfl⟩⟩
    show u.filled buf = 0
    rw [hf.same]
    exact haway.2
  · intro hs hd v
    have hs' : u.sending buf = none := hs
    have hd' : 0 < u.delivered buf := hd
    rw [hf.same] at hs' hd'
    have hzero := h.settled hs' hd' v
    have hle := hf.due v
    show u.due buf v = 0
    omega
  · intro s hs
    have hs' : u.sending buf = some s := hs
    rw [hf.same] at hs'
    obtain ⟨hsend, hapart⟩ := hf.sends s hs'
    refine hsend.congr ?_ rfl ?_ rfl rfl rfl
    · intro v hv
      rw [hf.lowered_count h, if_neg (hapart v hv), Int.sub_zero, hf.count]
    · intro v _ hkey
      rw [hf.same] at hkey
      exact (hf.keys h v.store buf).mpr hkey
  · intro hne
    obtain ⟨howed, hkept⟩ := hf.stale hne
    refine ⟨(Forgets.lowered_owed u .video).trans howed, ?_⟩
    rcases hkept with ht | hpreview
    · exact .inr ⟨_, rfl, rfl, ht, rfl⟩
    · by_cases ht : t.store = .preview
      · exact .inr ⟨_, rfl, rfl, ht, rfl⟩
      · left
        rw [hf.lowered_count h, if_neg (Ne.symm ht), Int.sub_zero]
        exact hpreview

theorem Forgets.returnOk (hf : Forgets w u buf t stop) (h : BufOk w buf) (hkeys : KeysOk w)
    (hbuf : buf ≠ 0) {r : Return} (hr : (u.lowered buf t stop).returning = some r) :
    r.Ok (u.lowered buf t stop) := by
  have hpos := hf.count_pos h
  have hrec : u.recording = w.recording := by rw [hf.same]
  cases hr
  refine ⟨hbuf, ?_, ?_, hf.inStop, hf.alone, ?_, ?_, nofun⟩
  · have haway := h.away (Int.ne_of_gt hpos)
    show u.withDevice buf = false ∧ u.filled buf = 0
    rwa [hf.same]
  · show (u.lowered buf t stop).count t.store buf = u.count t.store buf - 1
    rw [hf.lowered_count h, if_pos rfl, hf.count]
  · intro ht
    apply (hf.keys h .preview buf).mpr
    have hkey := key_of_count (Int.ne_of_gt hpos)
    rcases ht with ht | ht
    · exact ht ▸ hkey
    · refine (hkeys.on (h.counts.video ?_) buf).mp (ht ▸ hkey)
      exact ht ▸ Int.ne_of_gt hpos
  · intro _ s hs hne
    have hs' := hf.ne_zero h hne
    have hpair := h.counts.coupled s t.store hs hs' (Int.ne_of_gt hpos)
    refine ⟨?_, hpair⟩
    have hvideo : w.count .video buf ≠ 0 := by
      rcases hpair with ⟨-, ht⟩ | ⟨rfl, -⟩
      · exact ht ▸ Int.ne_of_gt hpos
      · exact hs'
    exact hrec.trans (h.counts.video hvideo).1

/-- `returnFrame` lowers the count of a delivery that the history has no more. -/
theorem FramesOk.lowered (h : FramesOk w) (hfree : w.returning = none) (hbuf : buf ≠ 0)
    (hf : Forgets w u buf t stop) : FramesOk (u.lowered buf t stop) := by
  have hb := h.bufs buf
  have hchange : Changes w (u.lowered buf t stop) buf := by
    refine ⟨⟨?_, ?_, ?_⟩, ?_, hf.keys hb⟩
    · show u.recording = _
      rw [hf.same]
    · show u.subscribers = _
      rw [hf.same]
    · show u.frameQueue = _
      rw [hf.same]
    · intro k hk
      obtain ⟨hheld, hdue, hstale⟩ := hf.others k hk
      refine ⟨hf.lowered_count_ne hk, fun s _ v _ => (hf.keys hb v.store k).mpr, hheld, hdue, ?_,
        ?_, ?_, ?_, hstale, ?_, ?_⟩
      · show u.withDevice k = _
        rw [hf.same]
      · show u.delivered k = _
        rw [hf.same]
      · show u.filled k = _
        rw [hf.same]
      · show u.sending k = _
        rw [hf.same]
      · rintro ⟨r, hr, -⟩
        rw [hfree] at hr
        cases hr
      · rintro - (hpreview | ⟨r, hr, -⟩)
        · exact .inl ((hf.lowered_count_ne hk _).symm ▸ hpreview)
        · rw [hfree] at hr
          cases hr
  refine h.change (fun hz => absurd hz hbuf) hchange hf.filming (hf.bufOk hb) ?_
    (fun r => hf.returnOk hb h.keys hbuf) ?_
  · show ∀ f ∈ u.fills, f.2 = 0
    rw [hf.same]
    exact h.fills
  · refine hf.stops.congr rfl id fun s k hk => (hf.keys hb s k).mpr ?_
    rwa [hf.same] at hk

end Lowered

theorem otherType_of_pair (hrec : w.recording = true)
    (hpair : s = .preview ∧ t.store = .video ∨ s = .video ∧ t.store = .preview) :
    ∃ v, w.otherType t = some v ∧ v.store = s := by
  rcases hpair with ⟨rfl, ht⟩ | ⟨rfl, ht⟩
  · refine ⟨.previewFrameSync, ?_, rfl⟩
    cases t <;> simp [store] at ht
    simp [otherType, hrec]
  · refine ⟨.videoFrameSync, ?_, rfl⟩
    cases t <;> simp [store] at ht <;> simp [otherType, hrec]

theorem look_ok (h : FramesOk w) {r : Return} (hr : w.returning = some r) (hother : r.other = none)
    (hlook : LookOk w) : ∃ w', w.look = some w' ∧ FramesOk w' := by
  have hret := h.returns r hr
  refine ⟨{ w with returning := some { r with other := some (w.otherType r.own) } }, ?_, ?_⟩
  · rw [look, hr]
    rfl
  refine ⟨h.keys.congr Iff.rfl fun _ _ => Iff.rfl, h.null, ?_, h.fills, ?_,
    h.stops.congr rfl id fun _ _ => id⟩
  · intro k
    refine (h.bufs k).congr ⟨fun _ => rfl, fun _ _ _ _ hk => hk, rfl, rfl, rfl, rfl, rfl, rfl, rfl,
      ?_, ?_⟩ (h.bufs k).counts.video rfl rfl
    · rintro ⟨r', hr', rfl⟩
      cases hr.symm.trans hr'
      exact .inl ⟨_, rfl, rfl⟩
    · rintro hstale (hpreview | ⟨r', hr', rfl, hown, -⟩)
      · exact .inl hpreview
      · cases hr.symm.trans hr'
        -- the stale count is in the table, so that capture is still on
        have hb := h.bufs r.buf
        have hvideo : w.count .video r.buf ≠ 0 := fun hz => hstale (hb.counts.not_stale hz)
        have hleft := (hlook r hr hown (hb.counts.video hvideo).1).2 hstale
        left
        show 0 < w.count .preview r.buf
        have hcount := hret.own
        rw [hown] at hcount
        have hnonneg := hb.counts.nonneg .preview
        omega
  · intro r' hr'
    cases hr'
    refine ⟨hret.buf, hret.away, hret.own, hret.stop, hret.alone, hret.key, nofun, ?_⟩
    intro o ho
    cases ho
    refine ⟨?_, ?_⟩
    · intro t ht
      rw [otherType] at ht
      have hfilming : r.own.store = .preview → w.recording = true →
          r.buf ∈ (w.available .video).keys := fun hown hrec =>
        (h.keys.on ⟨hrec, (hlook r hr hown hrec).1⟩ r.buf).mpr (hret.key (.inl hown))
      split_ifs at ht with hv hp hs
      · cases ht
        exact hret.key (.inr (by rw [hv.2]; rfl))
      · cases ht
        exact hfilming (by rw [hp.2]; rfl) hp.1
      · cases ht
        exact hfilming (by rw [hs.2]; rfl) hs.1
    · intro s hs hne
      obtain ⟨hrec, hpair⟩ := hret.before hother s hs hne
      exact otherType_of_pair hrec hpair

/-- The sum that `returnFrame` ends with is zero exactly if all counts of the buffer are. -/
theorem Return.Ok.total_iff {r : Return} {o : Option FrameType} (h : r.Ok w)
    (hcounts : CountsOk w r.buf) (ho : r.other = some o) :
    r.refCount + o.elim 0 (fun t => w.count t.store r.buf) = 0 ↔ ∀ s, w.count s r.buf = 0 := by
  have hown := h.own
  obtain ⟨-, hrest⟩ := h.after o ho
  constructor
  · intro hzero
    have hother : 0 ≤ o.elim 0 (fun t => w.count t.store r.buf) := by
      cases o with
      | none => exact Int.le_refl 0
      | some t => exact hcounts.nonneg t.store
    have hnonneg := hcounts.nonneg r.own.store
    intro s
    by_cases hs : s = r.own.store
    · rw [hs]
      omega
    · by_contra hne
      obtain ⟨t, rfl, rfl⟩ := hrest s hs hne
      simp only [Option.elim_some] at hzero hother
      omega
  · intro hzero
    rw [← hown, hzero]
    cases o with
    | none => rfl
    | some t => simp [hzero]

theorem endReturn_ok (h : FramesOk w) {r : Return} {o : Option FrameType}
    (hr : w.returning = some r) (ho : r.other = some o) :
    ∃ w', w.endReturn = some w' ∧ FramesOk w' := by
  have hret := h.returns r hr
  have hb := h.bufs r.buf
  have htotal := hret.total_iff hb.counts ho
  obtain ⟨place, hplace⟩ : ∃ place,
      (if r.stop then w.stopping.map StopPlace.next else w.stopping) = place := ⟨_, rfl⟩
  obtain ⟨u, hu⟩ : ∃ u : Frames, u = { w with returning := none, stopping := place } := ⟨_, rfl⟩
  have heq : w.endReturn = some
      (if r.refCount + o.elim 0 (fun t => w.count t.store r.buf) = 0 then u.fillThisBuffer r.buf
        else u) := by
    have hlookup : o.elim (some 0) (w.getFrameRefCount r.buf) =
        some (o.elim 0 fun t => w.count t.store r.buf) := by
      cases o with
      | none => rfl
      | some t => exact valueFor_of_key ((hret.after _ ho).1 t rfl)
    simp only [endReturn, hr, ho, Option.bind_eq_bind, Option.bind_some, hlookup, hplace, hu]
    rfl
  -- the loop of `stopVideoCapture` goes on to its next pass, or is not concerned
  have hnext : place ≠ none → w.stopping ≠ none := by
    rw [← hplace]
    split <;> simp
  have hcleared : place = some .cleared ↔ w.stopping = some .cleared := by
    rw [← hplace]
    split
    · next hstop =>
      obtain ⟨i, hi⟩ := hret.stop hstop
      simp [hi, StopPlace.next]
    · rfl
  have htaking : ∀ i buf, place = some (.taking i buf) → w.stopping = some (.taking i buf) := by
    intro i buf
    rw [← hplace]
    split
    · next hstop =>
      obtain ⟨j, hj⟩ := hret.stop hstop
      simp [hj, StopPlace.next]
    · exact id
  have hfilm : u.Filming ↔ w.Filming := by
    rw [hu]
    exact and_congr_right fun _ => not_congr hcleared
  have hstops : StopsOk u := by
    rw [hu]
    exact ⟨fun hne => h.stops.recording (hnext hne), fun i buf ht =>
      h.stops.taking i buf (htaking i buf ht)⟩
  have hkept : ∀ k, w.stale k ≠ 0 → w.Kept k → u.Kept k := by
    rintro k - (hpreview | ⟨r', hr', -, -, hnone⟩)
    · exact .inl (hu ▸ hpreview)
    · cases hr.symm.trans hr'
      rw [ho] at hnone
      cases hnone
  have hothers : ∀ k, k ≠ r.buf → ¬ w.InReturn k := by
    rintro k hk ⟨r', hr', rfl⟩
    cases hr.symm.trans hr'
    exact hk rfl
  by_cases hzero : r.refCount + o.elim 0 (fun t => w.count t.store r.buf) = 0
  · have hcounts := htotal.mp hzero
    have hforgotten := hb.counts.forgotten hcounts
    refine ⟨u.fillThisBuffer r.buf, by rw [heq, if_pos hzero], ?_⟩
    refine h.change (fun hz => absurd hz hret.buf) ⟨?_, ?_, ?_⟩ hfilm ?_ ?_ ?_ ?_
    · rw [hu]
      exact ⟨rfl, rfl, rfl⟩
    · intro k hk
      refine ⟨?_, ?_, ?_, ?_, ?_, ?_, ?_, ?_, ?_, fun hin => absurd hin (hothers k hk), ?_⟩
      · rw [hu]
        exact fun _ => rfl
      · rw [hu]
        exact fun _ _ _ _ hkey => hkey
      · rw [hu]
        rfl
      · rw [hu]
        rfl
      · rw [hu]
        exact update_of_ne hk _ _
      · rw [hu]
        rfl
      · rw [hu]
        exact update_of_ne hk _ _
      · rw [hu]
        rfl
      · rw [hu]
        rfl
      · exact hkept k
    · rw [hu]
      exact fun _ _ => Iff.rfl
    · rw [hu]
      refine ⟨⟨?_, hb.counts.coupled, ?_, hb.counts.small⟩, ?_, ?_, hb.settled, ?_, ?_⟩
      · intro s
        cases s <;> exact hb.counts.tally _
      · exact absurd (hcounts .video)
      · intro _
        have hfilled : update w.filled r.buf (w.filled r.buf + 1) r.buf = 1 := by
          rw [update_self, hret.away.2]
        exact ⟨hcounts, Nat.le_of_eq hfilled, fun _ => hfilled⟩
      · intro hno
        have hdev : update w.withDevice r.buf true r.buf = true := update_self ..
        exact absurd (hdev.symm.trans hno) Bool.noConfusion
      · intro s hs
        exact (hb.sends s hs).congr (fun _ _ => rfl) rfl (fun _ _ hk => hk) rfl rfl rfl
      · exact absurd (hb.counts.not_stale (hcounts .video))
    · intro f hf
      have hf' : f ∈ u.fills ++ [(r.buf, u.holders r.buf)] := hf
      rw [hu] at hf'
      rcases List.mem_append.mp hf' with hf' | hf'
      · exact h.fills f hf'
      · rw [List.mem_singleton.mp hf']
        simp [holders, FrameType.all, hforgotten]
    · rw [hu]
      nofun
    · exact hstops.congr rfl id fun _ _ => id
  · have hsome : ∃ s, w.count s r.buf ≠ 0 := by
      rw [htotal] at hzero
      push Not at hzero
      exact hzero
    refine ⟨u, by rw [heq, if_neg hzero], ?_⟩
    refine ⟨?_, ?_, ?_, ?_, ?_, hstops⟩
    · refine h.keys.congr hfilm ?_
      rw [hu]
      exact fun _ _ => Iff.rfl
    · rw [hu]
      exact h.null
    · intro k
      refine (h.bufs k).congr ⟨?_, ?_, ?_, ?_, ?_, ?_, ?_, ?_, ?_, ?_, hkept k⟩
        (fun hv => hfilm.mpr ((h.bufs k).counts.video hv)) (by rw [hu]) (by rw [hu])
      · rw [hu]
        exact fun _ => rfl
      · rw [hu]
        exact fun _ _ _ _ hkey => hkey
      · rw [hu]
      · rw [hu]
      · rw [hu]
      · rw [hu]
      · rw [hu]
      · rw [hu]
      · rw [hu]
      · rintro ⟨r', hr', rfl⟩
        cases hr.symm.trans hr'
        exact .inr hsome
    · rw [hu]
      exact h.fills
    · rw [hu]
      nofun

/-! ## The steps -/

/-- Where a type is still to be sent, nothing of its table is held. -/
theorem BufOk.pending_apart (h : BufOk w buf) (hheld : 0 < w.held buf t) {s : Sending}
    (hs : w.sending buf = some s) :
    ∀ u ∈ s.pending, u.store ≠ t.store := by
  have hqueued : Queued w buf s.pending := by
    have hplace := (h.sends s hs).place
    cases s with
    | next t rest => exact hplace.1
    | calling t i n rest => exact hplace.2.2.2.1
  intro u hu hstore
  have hdue := hqueued.due u hu
  have htally := h.counts.tally u.store
  -- the count is the number of deliveries to come of `u`, so `t` has no part in it
  cases u <;> cases t <;> simp only [store, reduceCtorEq] at hstore <;>
    simp only [store, Frames.owed] at hdue htally <;> omega

theorem giveBack_ok (h : FramesOk w) (hbuf : buf ≠ 0) (hheld : 0 < w.held buf t)
    (hfree : w.returning = none) : ∃ w', w.giveBack buf t = some w' ∧ FramesOk w' := by
  have hb := h.bufs buf
  obtain ⟨u, hu⟩ : ∃ u : Frames, u = { w with
      held := update w.held buf (update (w.held buf) t (w.held buf t - 1)) } := ⟨_, rfl⟩
  have hkept : w.stale buf ≠ 0 → 0 < w.count .preview buf := by
    intro hne
    refine (hb.stale hne).2.resolve_right ?_
    rintro ⟨r, hr, -⟩
    rw [hfree] at hr
    cases hr
  have hf : Forgets w u buf t false := by
    rw [hu]
    refine ⟨rfl, ?_, ?_, fun _ => Nat.le_refl _, ?_, ?_, Iff.rfl,
      h.stops.congr rfl id fun _ _ => id, nofun, ?_⟩
    · intro k hk
      exact ⟨update_of_ne hk _ _, rfl, rfl⟩
    · intro s
      cases s <;> cases t <;> simp [Frames.owed, staleIn, store] <;> omega
    · intro s hs
      exact ⟨(hb.sends s hs).congr (fun _ _ => rfl) rfl (fun _ _ hk => hk) rfl rfl rfl,
        hb.pending_apart hheld hs⟩
    · intro hne
      refine ⟨?_, .inr (hkept hne)⟩
      have howed := (hb.stale hne).1
      simp only [Frames.owed, update_self] at howed ⊢
      by_cases ht : t = .videoFrameSync
      · subst ht
        omega
      · rw [update_of_ne (Ne.symm ht)]
        exact howed
    · intro _ ht
      by_contra hne
      have howed := (hb.stale hne).1
      have hle := held_due_le_owed w t buf
      rw [ht] at hle
      omega
  refine ⟨u.lowered buf t false, ?_, h.lowered hfree hbuf hf⟩
  have hpos := hf.count_pos hb
  rw [← hf.count] at hpos
  rw [← returnFrame_eq hbuf hpos, hu]
  rfl

theorem store_eq_video : t.store = .video ↔ t = .videoFrameSync := by
  cases t <;> simp [store]

theorem Sending.mem_types_of_pending {s : Sending} (h : t ∈ s.pending) :
    t ∈ s.types := by
  cases s with
  | next t rest => exact h
  | calling t i n rest => exact List.mem_cons_of_mem _ h

end Omap4Hal.Camera

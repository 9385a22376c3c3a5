import Omap4Hal.Elfload.Dsbt
import Omap4Hal.Lib.Run

/- The master DSBT over sequences of registrations, assignments and releases. After an assignment
   every module that is registered has a slot of its own, the one it chose or the lowest that was
   free (`Placed`). The index that is handed out is the right one as long as nobody who is
   registered has chosen one (`dsbt_assigned_iff`). -/
namespace Omap4Hal.Elfload.Dsbt

open Lib
open List (mem_append mem_singleton)

/-! ## Runs -/

inductive Call where
  | register (a : Asked)
  | assign
  | release (fileHandle : Int)

/-- The client, and the modules whose registration was accepted and that are not released, with
the index that they chose. -/
structure World where
  state : State := {}
  registered : List (Int × Option Nat) := []

def World.register (w : World) (a : Asked) : Except RegisterError State → World
  | .error _ => w
  | .ok s => ⟨s, w.registered ++ [(a.requestorFileHandle, a.index)]⟩

def step (w : World) : Call → Option World
  | .register a => (Dsbt.register w.state a).map (w.register a)
  | .assign => some { w with state := assignIndices w.state }
  | .release h => some ⟨Dsbt.release w.state h, w.registered.filter (·.1 ≠ h)⟩

def Call.fileHandles : Call → List Int
  | .register a => [a.requestorFileHandle]
  | .assign => []
  | .release _ => []

/-- The file handles that ask for an index. -/
def fileHandles (calls : List Call) : List Int := calls.flatMap Call.fileHandles

def Call.InRange : Call → Prop
  | .register a => a.InRange
  | .assign => True
  | .release _ => True

/-! ## What should hold after an assignment -/

def Occupies (s : State) (h : Int) (i : Nat) : Prop :=
  ∃ r, slotAt s.master i = some r ∧ r.fileHandle = h

/-- `s` is the state before the assignment and `t` the one after. -/
structure Placed (registered : List (Int × Option Nat)) (s t : State) : Prop where
  one : ∀ m ∈ registered, ∃! i, Occupies t m.1 i
  different : ∀ i h h', Occupies t h i → Occupies t h' i → h = h'
  specific : ∀ m ∈ registered, ∀ n, m.2 = some n → Occupies t m.1 n
  general : ∃ is,
    List.Forall₂ (fun (r : Request) i => Occupies t r.fileHandle i)
      (s.queue.filter Request.general) is ∧
    TakesLowest {i | (∀ h, ¬ Occupies s h i) ∧ ∀ r ∈ s.queue, r.requestedIndex ≠ some i} is
  kept : ∀ i h, Occupies s h i → Occupies t h i
  released : ∀ h h' i, Occupies (release t h) h' i ↔ Occupies t h' i ∧ h' ≠ h

/-- `DLIF_get_dsbt_index` returns the slot of every module. -/
def Indexed (registered : List (Int × Option Nat)) (t : State) : Prop :=
  ∀ m ∈ registered, ∀ i, Occupies t m.1 i → getIndex t m.1 = some i

/-- The calls return, and an assignment after them is as it should be. -/
def Holds (calls : List Call) : Prop :=
  ∃ w, run step {} calls = some w ∧
    Placed w.registered w.state (assignIndices w.state) ∧
    Indexed w.registered (assignIndices w.state)

/-! ## The invariant along a run -/

/-- `later` are the file handles that are still to come. -/
structure Tracked (later : List Int) (w : World) : Prop where
  sane : Sane w.state
  known : ∀ m ∈ w.registered,
    (∃ q ∈ w.state.queue, q.fileHandle = m.1 ∧ q.requestedIndex = m.2) ∨
      ∃ i r, slotAt w.state.master i = some r ∧ r.fileHandle = m.1 ∧ r.requestedIndex = m.2
  fresh : ∀ h, Mentions w.state h → h ∉ later

theorem Tracked.init (later : List Int) : Tracked later {} where
  sane := by constructor <;> simp
  known := by simp
  fresh h hm := by simp [Mentions] at hm

variable {s : State} {w : World}

theorem Sane.register (hs : Sane s) {r : Request} (hnew : ¬ Mentions s r.fileHandle)
    (hun : r.assignedIndex = none)
    (hfree : ∀ n, r.requestedIndex = some n →
      slotAt s.master n = none ∧ ∀ q ∈ s.queue, q.requestedIndex ≠ some n)
    :
    Sane { s with queue := s.queue ++ [r] } where
  bound := hs.bound
  used := hs.used
  once := hs.once
  chosen := hs.chosen
  given := hs.given
  waiting := by
    rw [List.map_append]
    refine List.nodup_append.mpr ⟨hs.waiting, by simp, ?_⟩
    intro h hh h' hh' heq
    obtain ⟨q, hq, hqh⟩ := List.mem_map.mp hh
    rw [List.map_singleton, mem_singleton] at hh'
    exact hnew (.inr ⟨q, hq, hqh.trans (heq.trans hh')⟩)
  apart := by
    intro i x hx q hq heq
    rcases mem_append.mp hq with hq | hq
    · exact hs.apart i x hx q hq heq
    · rw [mem_singleton] at hq
      exact hnew (.inl ⟨i, x, hx, heq.trans (congrArg Request.fileHandle hq)⟩)
  free := by
    intro q hq n hn
    rcases mem_append.mp hq with hq | hq
    · exact hs.free q hq n hn
    · rw [mem_singleton] at hq
      exact (hfree n (hq ▸ hn)).1
  differ := by
    refine List.pairwise_append.mpr ⟨hs.differ, List.pairwise_singleton _ _, ?_⟩
    intro q hq q' hq' n hn hn'
    rw [mem_singleton] at hq'
    exact (hfree n (hq' ▸ hn')).2 q hq hn
  unassigned := by
    intro q hq
    rcases mem_append.mp hq with hq | hq
    · exact hs.unassigned q hq
    · rw [mem_singleton] at hq
      exact hq ▸ hun

theorem exists_of_forall₂ {α β : Type} {R : α → β → Prop} {xs : List α} {ys : List β}
    (h : List.Forall₂ R xs ys) {x : α} (hx : x ∈ xs) : ∃ y ∈ ys, R x y := by
  induction h with
  | nil => cases hx
  | cons hR _ ih =>
    rcases List.mem_cons.mp hx with rfl | hx
    · exact ⟨_, List.mem_cons_self, hR⟩
    · obtain ⟨y, hy, hxy⟩ := ih hx
      exact ⟨y, List.mem_cons_of_mem _ hy, hxy⟩

theorem slotAt_release_eq_some {h : Int} {i : Nat} {r : Request} :
    slotAt (release s h).master i = some r ↔ slotAt s.master i = some r ∧ r.fileHandle ≠ h := by
  rw [slotAt_release, Option.filter_eq_some_iff, decide_eq_true_eq]

theorem Sane.release (hs : Sane s) (h : Int) : Sane (release s h) := by
  obtain ⟨hlen, hle, hslots⟩ := releaseFrom_spec h s.master 0 s.firstAvail
  have hb := hs.bound
  constructor
  case bound =>
    change (releaseFrom h s.master 0 s.firstAvail).2 ≤
      (releaseFrom h s.master 0 s.firstAvail).1.length
    omega
  case used =>
    intro i hi
    change i < (releaseFrom h s.master 0 s.firstAvail).2 at hi
    obtain ⟨r, hr⟩ := Option.ne_none_iff_exists'.mp (hs.used i (by omega))
    have hother : r.fileHandle ≠ h := by
      intro heq
      have hlow := (hslots i).2 r hr heq
      omega
    rw [slotAt_release_eq_some.mpr ⟨hr, hother⟩]
    simp
  case once =>
    intro i j r r' hi hj
    exact hs.once i j r r' (slotAt_release_eq_some.mp hi).1 (slotAt_release_eq_some.mp hj).1
  case chosen => exact fun i r n hi => hs.chosen i r n (slotAt_release_eq_some.mp hi).1
  case given => exact fun i r hi => hs.given i r (slotAt_release_eq_some.mp hi).1
  case waiting => exact hs.waiting
  case apart => exact fun i r hi => hs.apart i r (slotAt_release_eq_some.mp hi).1
  case free =>
    intro q hq n hn
    rw [slotAt_release, hs.free q hq n hn]
    rfl
  case differ => exact hs.differ
  case unassigned => exact hs.unassigned

theorem tracked_step {c : Call} {later : List Int} {w' : World}
    (h : Tracked (c.fileHandles ++ later) w) (hnodup : (c.fileHandles ++ later).Nodup)
    (hstep : step w c = some w') : Tracked later w' := by
  have hlater : ∀ h', Mentions w.state h' → h' ∉ later := fun h' hm hmem =>
    h.fresh h' hm (List.mem_append_right _ hmem)
  cases c with
  | register a =>
    obtain ⟨result, hresult, rfl⟩ := Option.map_eq_some_iff.mp hstep
    cases result with
    | error e => exact ⟨h.sane, h.known, hlater⟩
    | ok s =>
      obtain ⟨r, rfl, hhandle, hindex, hun, hfree⟩ := register_ok hresult
      have hnew : ¬ Mentions w.state r.fileHandle := fun hm =>
        h.fresh _ hm (hhandle ▸ List.mem_cons_self)
      refine ⟨h.sane.register hnew hun (hindex ▸ hfree), ?_, ?_⟩
      · intro m hm
        rcases mem_append.mp hm with hm | hm
        · rcases h.known m hm with ⟨q, hq, hmq⟩ | hslot
          · exact .inl ⟨q, List.mem_append_left _ hq, hmq⟩
          · exact .inr hslot
        · rw [mem_singleton.mp hm]
          exact .inl ⟨r, List.mem_append_right _ (mem_singleton.mpr rfl), hhandle, hindex⟩
      · rintro h' (hslot | ⟨q, hq, hqh⟩)
        · exact hlater h' (.inl hslot)
        · rcases mem_append.mp hq with hq | hq
          · exact hlater h' (.inr ⟨q, hq, hqh⟩)
          · rw [← hqh, mem_singleton.mp hq, hhandle]
            exact (List.nodup_cons.mp hnodup).1
  | assign =>
    cases hstep
    obtain ⟨hsane, -, hkept, hspecific, ⟨is, hall, -⟩, hfrom⟩ := assign_spec h.sane
    refine ⟨hsane, ?_, fun h' hm => hlater h' (hfrom h' hm)⟩
    intro m hm
    rcases h.known m hm with ⟨q, hq, hh, hi⟩ | ⟨i, r, hslot, hr⟩
    · cases hn : q.requestedIndex with
      | some n => exact .inr ⟨n, q, hspecific q hq n hn, hh, hi⟩
      | none =>
        have hgen : q ∈ w.state.queue.filter Request.general :=
          List.mem_filter.mpr ⟨hq, by rw [Request.general, hn]; rfl⟩
        obtain ⟨i, -, hslot⟩ := exists_of_forall₂ hall hgen
        exact .inr ⟨i, _, hslot, hh, hi⟩
    · refine .inr ⟨i, r, ?_, hr⟩
      change slotAt (assignIndices w.state).master i = some r
      rw [hkept i (by rw [hslot]; simp), hslot]
  | release h' =>
    cases hstep
    refine ⟨h.sane.release h', ?_, ?_⟩
    · intro m hm
      obtain ⟨hm, hne⟩ := List.mem_filter.mp hm
      rcases h.known m hm with hq | ⟨i, r, hslot, hh, hi⟩
      · exact .inl hq
      · refine .inr ⟨i, r, slotAt_release_eq_some.mpr ⟨hslot, ?_⟩, hh, hi⟩
        rw [hh]
        simpa using hne
    · rintro x (⟨i, r, hslot, hh⟩ | hq)
      · exact hlater x (.inl ⟨i, r, (slotAt_release_eq_some.mp hslot).1, hh⟩)
      · exact hlater x (.inr hq)

theorem tracked_run {calls : List Call} {w' : World} (h : Tracked (fileHandles calls) w)
    (hnodup : (fileHandles calls).Nodup) (hrun : run step w calls = some w') : Tracked [] w' := by
  induction calls generalizing w with
  | nil =>
    cases hrun
    exact h
  | cons c calls ih =>
    obtain ⟨w₁, h₁, hrest⟩ := run_cons_eq_some hrun
    rw [fileHandles, List.flatMap_cons] at h hnodup
    exact ih (tracked_step h hnodup h₁) (List.nodup_append.mp hnodup).2.1 hrest

/-! ## The claim of the table -/

theorem occupies_release {h h' : Int} {i : Nat} :
    Occupies (release s h) h' i ↔ Occupies s h' i ∧ h' ≠ h := by
  constructor
  · rintro ⟨r, hr, rfl⟩
    obtain ⟨hslot, hne⟩ := slotAt_release_eq_some.mp hr
    exact ⟨⟨r, hslot, rfl⟩, hne⟩
  · rintro ⟨⟨r, hr, rfl⟩, hne⟩
    exact ⟨r, slotAt_release_eq_some.mpr ⟨hr, hne⟩, rfl⟩

theorem not_occupies_iff {i : Nat} :
    (∀ h, ¬ Occupies s h i) ↔ slotAt s.master i = none := by
  constructor
  · intro hno
    cases hslot : slotAt s.master i with
    | none => rfl
    | some r => exact absurd ⟨r, hslot, rfl⟩ (hno r.fileHandle)
  · rintro hnone h ⟨r, hr, -⟩
    rw [hnone] at hr
    cases hr

/-- After the assignment every module that is registered is in a slot, the one it chose if it
chose one. -/
theorem Tracked.slot (h : Tracked [] w) {m : Int × Option Nat} (hm : m ∈ w.registered) :
    ∃ i r, slotAt (assignIndices w.state).master i = some r ∧ r.fileHandle = m.1 ∧
      r.requestedIndex = m.2 := by
  have h' : Tracked [] { w with state := assignIndices w.state } :=
    tracked_step (c := .assign) h (by simp [Call.fileHandles]) rfl
  rcases h'.known m hm with ⟨q, hq, -⟩ | hslot
  · rw [(assign_spec h.sane).2.1] at hq
    cases hq
  · exact hslot

theorem placed_of_tracked (h : Tracked [] w) :
    Placed w.registered w.state (assignIndices w.state) := by
  obtain ⟨hsane, -, hkept, -, ⟨is, hall, hlow⟩, -⟩ := assign_spec h.sane
  constructor
  case one =>
    intro m hm
    obtain ⟨i, r, hslot, hh, -⟩ := h.slot hm
    refine ⟨i, ⟨r, hslot, hh⟩, ?_⟩
    rintro j ⟨x, hx, hxh⟩
    exact hsane.once j i x r hx hslot (hxh.trans hh.symm)
  case different =>
    rintro i a b ⟨r, hr, rfl⟩ ⟨x, hx, rfl⟩
    rw [hr] at hx
    rw [Option.some.inj hx]
  case specific =>
    intro m hm n hn
    obtain ⟨i, r, hslot, hh, hindex⟩ := h.slot hm
    obtain rfl := (hsane.chosen i r n hslot (hindex.trans hn)).1
    exact ⟨r, hslot, hh⟩
  case general =>
    refine ⟨is, hall.imp ?_, ?_⟩
    · exact fun r i hslot => ⟨_, hslot, rfl⟩
    · simp only [not_occupies_iff]
      exact hlow
  case kept =>
    rintro i a ⟨r, hr, rfl⟩
    exact ⟨r, (hkept i (by rw [hr]; simp)).trans hr, rfl⟩
  case released => exact fun _ _ _ => occupies_release

theorem indexed_iff (h : Tracked [] w) :
    Indexed w.registered (assignIndices w.state) ↔ ∀ m ∈ w.registered, m.2 = none := by
  have hsane := (assign_spec h.sane).1
  constructor
  · intro hindexed m hm
    obtain ⟨i, r, hslot, hh, hindex⟩ := h.slot hm
    have hget := hindexed m hm i ⟨r, hslot, hh⟩
    rw [← hh, getIndex_eq hsane hslot] at hget
    cases hr : r.requestedIndex with
    | none => exact hindex.symm.trans hr
    | some n =>
      rw [(hsane.chosen i r n hslot hr).2] at hget
      cases hget
  · rintro hall m hm j ⟨x, hx, hxh⟩
    obtain ⟨i, r, hslot, hh, hindex⟩ := h.slot hm
    obtain rfl := hsane.once j i x r hx hslot (hxh.trans hh.symm)
    rw [← hh, getIndex_eq hsane hslot]
    exact hsane.given j r hslot (hindex.trans (hall m hm))

theorem run_isSome_iff (calls : List Call) (w : World) :
    (∃ w', run step w calls = some w') ↔ ∀ c ∈ calls, c.InRange := by
  induction calls generalizing w with
  | nil => simp
  | cons c calls ih =>
    have hstep : (∃ w₁, step w c = some w₁) ↔ c.InRange := by
      cases c with
      | register a =>
        rw [← Option.ne_none_iff_exists', step, Ne, Option.map_eq_none_iff,
          register_eq_none_iff, not_not, Call.InRange]
      | assign => exact iff_of_true ⟨_, rfl⟩ trivial
      | release h => exact iff_of_true ⟨_, rfl⟩ trivial
    rw [List.forall_mem_cons, ← hstep]
    constructor
    · rintro ⟨w', hrun⟩
      obtain ⟨w₁, h₁, hrest⟩ := run_cons_eq_some hrun
      exact ⟨⟨w₁, h₁⟩, (ih w₁).mp ⟨w', hrest⟩⟩
    · rintro ⟨⟨w₁, h₁⟩, hrest⟩
      obtain ⟨w', hrun⟩ := (ih w₁).mpr hrest
      exact ⟨w', (run_cons h₁).trans hrun⟩

/-- The table is as it should be after every assignment. The indices that are handed out are the
right ones as long as nobody who is registered has chosen one. -/
theorem dsbt_assigned_iff (calls : List Call) (hdistinct : (fileHandles calls).Nodup) :
    (∀ w, run step {} calls = some w →
      Placed w.registered w.state (assignIndices w.state)) ∧
    (Holds calls ↔ (∀ c ∈ calls, c.InRange) ∧
      ∀ w, run step {} calls = some w → ∀ m ∈ w.registered, m.2 = none) := by
  have htracked : ∀ w, run step {} calls = some w → Tracked [] w := fun w hrun =>
    tracked_run (.init _) hdistinct hrun
  refine ⟨fun w hrun => placed_of_tracked (htracked w hrun), ?_, ?_⟩
  · rintro ⟨w, hrun, -, hindexed⟩
    refine ⟨(run_isSome_iff calls {}).mp ⟨w, hrun⟩, ?_⟩
    intro w' hrun'
    cases hrun.symm.trans hrun'
    exact (indexed_iff (htracked w hrun)).mp hindexed
  · rintro ⟨hrange, hall⟩
    obtain ⟨w, hrun⟩ := (run_isSome_iff calls {}).mpr hrange
    exact ⟨w, hrun, placed_of_tracked (htracked w hrun),
      (indexed_iff (htracked w hrun)).mpr (hall w hrun)⟩

/-- A library that chooses the index 1, and one that takes what it gets. -/
def libraryOne : Asked where
  requestorName := "one.dll"
  requestorFileHandle := 1
  requestedDsbtIndex := 1
  dsbtSize := 4
  dsbtBase := some 0x1000
  staticBase := some 0x2000

def libraryTwo : Asked where
  requestorName := "two.dll"
  requestorFileHandle := 2
  requestedDsbtIndex := -1
  dsbtSize := 4
  dsbtBase := some 0x3000
  staticBase := some 0x4000

theorem dsbt_assigned_two : Holds [.register libraryTwo, .assign] :=
  (dsbt_assigned_iff [.register libraryTwo, .assign] (by decide)).2.mpr
    ⟨by simp [Call.InRange, Asked.InRange, libraryTwo], by
      intro w hrun
      cases hrun
      decide⟩

/-- The index that was chosen is not the one that is handed out; no index is. -/
theorem dsbt_not_indexed :
    getIndex (assignIndices { queue := [⟨"one.dll", 1, 4, 0x1000, 0x2000, some 1, none⟩] }) 1 =
        none ∧
      (fileHandles [.register libraryOne]).Nodup ∧ ¬ Holds [.register libraryOne] := by
  refine ⟨by decide, by decide, ?_⟩
  rintro ⟨w, hrun, hplaced, hindexed⟩
  cases hrun
  have hslot := hplaced.specific (1, some 1) (by decide) 1 rfl
  have hget := hindexed (1, some 1) (by decide) 1 hslot
  exact absurd hget (by decide)

end Omap4Hal.Elfload.Dsbt

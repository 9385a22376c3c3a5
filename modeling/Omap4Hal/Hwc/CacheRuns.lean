import Omap4Hal.Hwc.Buffers
import Omap4Hal.Lib.Run

/- Runs of the composer's cache. `Sound` is what should hold of the cache after every call, and
   `Keeps` what should hold of a call. `cache_sound` says that it does as long as a buffer that has
   to make room can be unmapped and replaced, and is not one of the five that were mapped last. -/
namespace Omap4Hal.Hwc

open Lib
open Function (update update_self update_of_ne)
open World

/-! ## Runs -/

inductive Call where
  | get (hndl : NativeHandle)
  | map (layer : Option NativeHandle) (o : Outcome)

def step (w : World) : Call → Option World
  | .get hndl => (getCachedBuffer w hndl).map Prod.snd
  | .map layer o => (mapCachedBuffer w layer o).map Prod.snd

/-- The cache after `init_cached_buffers`. -/
def start : World := initCachedBuffers {}

/-- The entries are all in the list, which ends. Those with a buffer hold a mapping of it, each
one of its own, and there are no other mappings. A buffer is found until six others have been
mapped. -/
structure Sound (w : World) : Prop where
  list : ∃ l, Leads w.next l none ∧ l.head? = some w.head ∧ l.Perm (List.range mapCacheMaxSz)
  held : ∀ i h, i < mapCacheMaxSz → (w.cache i).layerBuffer = some h →
    ∃ p, p ≠ 0 ∧ (w.cache i).mappedPtr = some p ∧ w.mappings p = some h.block
  single : ∀ i j h h', i < mapCacheMaxSz → j < mapCacheMaxSz →
    (w.cache i).layerBuffer = some h → (w.cache j).layerBuffer = some h' →
    (w.cache i).mappedPtr = (w.cache j).mappedPtr → i = j
  kept : ∀ p b, w.mappings p = some b →
    ∃ i h, i < mapCacheMaxSz ∧ (w.cache i).layerBuffer = some h ∧ (w.cache i).mappedPtr = some p
  found : ∀ hndl n, w.lastMap hndl.vptr = some n → w.maps < n + 6 →
    ∃ i, findBuf w hndl = some (some i)

/-- What should hold of a call: it returns, the cache is sound again, and what is unmapped is a
mapping, that of the entry that was mapped or looked up before all the others. -/
def Keeps (w : World) (c : Call) : Prop :=
  (∃ w', step w c = some w' ∧ Sound w') ∧
    match c with
    | .get _ => True
    | .map layer _ => ∀ hndl i h, layer = some hndl → hndl.nv12 = false → getLru w = some i →
      (w.cache i).layerBuffer = some h →
      (∃ p b, (w.cache i).mappedPtr = some p ∧ w.mappings p = some b) ∧
        ∀ j, j < mapCacheMaxSz → w.used i ≤ w.used j

/-- A buffer that has to make room can be unmapped and replaced, and it is not one of the five
that were mapped last. -/
def Fits (w : World) : Call → Prop
  | .get _ => True
  | .map layer o => ∀ hndl i h, layer = some hndl → hndl.nv12 = false → getLru w = some i →
    (w.cache i).layerBuffer = some h →
    o.unmapOk = true ∧ memMgrMap (evict w i o).mappings o.mapped ≠ none ∧ w.mapNo i + 5 ≤ w.maps

/-- The buffer is not in the cache when it is mapped, as it was looked up before. -/
def NotCached (w : World) : Call → Prop
  | .get _ => True
  | .map layer _ => ∀ hndl, layer = some hndl → findBuf w hndl = some none

variable {w w' : World}

/-! ## The invariant -/

/-- What the entries that `P` holds of have. -/
structure Held (w : World) (P : Nat → Prop) : Prop where
  held : ∀ i h, i < mapCacheMaxSz → P i → (w.cache i).layerBuffer = some h →
    ∃ p, p ≠ 0 ∧ (w.cache i).mappedPtr = some p ∧ w.mappings p = some h.block
  single : ∀ i j h h', i < mapCacheMaxSz → j < mapCacheMaxSz → P i → P j →
    (w.cache i).layerBuffer = some h → (w.cache j).layerBuffer = some h' →
    (w.cache i).mappedPtr = (w.cache j).mappedPtr → i = j
  kept : ∀ p b, w.mappings p = some b → ∃ i h, i < mapCacheMaxSz ∧ P i ∧
    (w.cache i).layerBuffer = some h ∧ (w.cache i).mappedPtr = some p

/-- The clock and the numbers of the mappings. -/
structure Counted (w : World) : Prop where
  used : ∀ i, w.used i ≤ w.clock
  mapNo : ∀ i, w.mapNo i ≤ w.maps
  lastMap : ∀ v n, w.lastMap v = some n → n ≤ w.maps

/-- There are entries for all buffers that were mapped no more than five mappings before `m`. -/
def Recent (w : World) (P : Nat → Prop) (m : Nat) : Prop :=
  ∀ v n, w.lastMap v = some n → m < n + 6 →
    ∃ i h, i < mapCacheMaxSz ∧ P i ∧ (w.cache i).layerBuffer = some h ∧ h.vptr = v ∧ w.mapNo i = n

/-- The order of use. The last entry may be out of order if it has the last mapping. -/
structure Inv (w : World) (init : List Nat) (t : Nat) : Prop where
  listed : Listed w init t
  entries : Held w fun _ => True
  counted : Counted w
  recent : Recent w (fun _ => True) w.maps
  sorted : init.Pairwise fun i j => w.used j ≤ w.used i
  last : (∀ i ∈ init, w.used t ≤ w.used i) ∨ w.mapNo t = w.maps

variable {init : List Nat} {t i : Nat} {o : Outcome} {p : Addr} {hndl : NativeHandle}

theorem Inv.sound (h : Inv w init t) : Sound w where
  list := ⟨init ++ [t], h.listed.leads, h.listed.head, h.listed.perm⟩
  held i g hi hg := h.entries.held i g hi trivial hg
  single i j g g' hi hj hg hg' := h.entries.single i j g g' hi hj trivial trivial hg hg'
  kept p b hp := by
    obtain ⟨i, g, hi, -, hg, hptr⟩ := h.entries.kept p b hp
    exact ⟨i, g, hi, hg, hptr⟩
  found hndl n hn hlt := by
    obtain ⟨i, g, hi, -, hg, hv, -⟩ := h.recent hndl.vptr n hn hlt
    exact h.listed.findBuf_isSome.mpr ⟨i, g, hi, hg, hv⟩

theorem Held.congr {P : Nat → Prop} (h : Held w P)
    (hbuf : ∀ i, (w'.cache i).layerBuffer = (w.cache i).layerBuffer)
    (hptr : ∀ i, (w'.cache i).mappedPtr = (w.cache i).mappedPtr)
    (hmap : w'.mappings = w.mappings) : Held w' P := by
  constructor
  · simp only [hbuf, hptr, hmap]
    exact h.held
  · simp only [hbuf, hptr]
    exact h.single
  · simp only [hbuf, hptr, hmap]
    exact h.kept

theorem Recent.congr {P : Nat → Prop} {m : Nat} (h : Recent w P m)
    (hbuf : ∀ i, (w'.cache i).layerBuffer = (w.cache i).layerBuffer)
    (hno : w'.mapNo = w.mapNo) (hlast : w'.lastMap = w.lastMap) : Recent w' P m := by
  rw [Recent, hlast, hno]
  simp only [hbuf]
  exact h

/-! ## Lookups -/

theorem used_touch_self (w : World) (i : Nat) : (w.touch i).used i = w.clock + 1 := by
  simp [touch]

theorem used_touch_ne (w : World) {j : Nat} (h : j ≠ i) : (w.touch i).used j = w.used j := by
  simp [touch, h]

theorem sorted_touch {l : List Nat} (hcount : ∀ j, w.used j ≤ w.clock)
    (hl : l.Pairwise fun i j => w.used j ≤ w.used i) (hi : i ∉ l) :
    (i :: l).Pairwise fun j k => (w.touch i).used k ≤ (w.touch i).used j := by
  have hsame : ∀ j ∈ l, (w.touch i).used j = w.used j := fun j hj =>
    used_touch_ne w fun heq => hi (heq ▸ hj)
  refine List.pairwise_cons.mpr ⟨?_, ?_⟩
  · intro j hj
    have hj' := hcount j
    rw [hsame j hj, used_touch_self]
    omega
  · refine hl.imp_of_mem ?_
    intro j k hj hk hjk
    rw [hsame j hj, hsame k hk]
    exact hjk

theorem used_touch_le (hcount : ∀ j, w.used j ≤ w.clock) (i j : Nat) :
    (w.touch i).used j ≤ (w.touch i).clock := by
  have hj := hcount j
  have hclock : (w.touch i).clock = w.clock + 1 := rfl
  rw [hclock]
  by_cases hji : j = i
  · rw [hji]
    exact Nat.le_of_eq (used_touch_self w i)
  · rw [used_touch_ne w hji]
    omega

/-- A lookup keeps the invariant: the entry becomes the first, and if it was the last, the one
before is the last now. -/
theorem Inv.get (h : Inv w init t) (hi : i ∈ init ++ [t]) :
    ∃ w' init' t', swapHead w i = some w' ∧ Inv (w'.touch i) init' t' := by
  obtain ⟨w', hswap, hframe, hhead, hleads⟩ := h.listed.swapHead hi
  have hnd := h.listed.nodup
  have hcount : ∀ j, w'.used j ≤ w'.clock := by
    rw [hframe.used, hframe.clock]
    exact h.counted.used
  have hperm : (i :: (init ++ [t]).erase i).Perm (List.range mapCacheMaxSz) :=
    (List.perm_cons_erase hi).symm.trans h.listed.perm
  have hentries : Held (w'.touch i) fun _ => True :=
    h.entries.congr hframe.buffers hframe.pointers hframe.mappings
  have hcounted : Counted (w'.touch i) := by
    refine ⟨used_touch_le hcount i, ?_, ?_⟩
    · simp only [touch, hframe.mapNo, hframe.maps]
      exact h.counted.mapNo
    · simp only [touch, hframe.lastMap, hframe.maps]
      exact h.counted.lastMap
  have hrecent : Recent (w'.touch i) (fun _ => True) (w'.touch i).maps := by
    have hr : Recent (w'.touch i) (fun _ => True) w.maps :=
      h.recent.congr hframe.buffers hframe.mapNo hframe.lastMap
    simp only [touch, hframe.maps] at hr ⊢
    exact hr
  have hsorted : init.Pairwise fun i j => w'.used j ≤ w'.used i := by
    rw [hframe.used]
    exact h.sorted
  by_cases hit : i ∈ init
  · -- the last entry stays where it is
    have hne : t ≠ i := by
      rintro rfl
      exact (List.nodup_append.mp hnd).2.2 t hit t (List.mem_singleton_self t) rfl
    have herase : (init ++ [t]).erase i = init.erase i ++ [t] := List.erase_append_left _ hit
    rw [herase] at hleads hperm
    have hndi := (List.nodup_append.mp hnd).1
    refine ⟨w', i :: init.erase i, t, hswap, ⟨hleads, ?_, hperm⟩, hentries, hcounted, hrecent,
      ?_, ?_⟩
    · exact congrArg some hhead.symm
    · exact sorted_touch hcount (hsorted.sublist (List.erase_sublist ..))
        (List.Nodup.not_mem_erase hndi)
    · rcases h.last with hlast | hlast
      · left
        intro j hj
        have ht : (w'.touch i).used t = w.used t := by
          rw [used_touch_ne w' hne, hframe.used]
        rw [ht]
        rcases List.mem_cons.mp hj with rfl | hj
        · have hle := h.counted.used t
          rw [used_touch_self, hframe.clock]
          omega
        · have hji : j ≠ i := fun heq => List.Nodup.not_mem_erase hndi (heq ▸ hj)
          rw [used_touch_ne w' hji, hframe.used]
          exact hlast j (List.mem_of_mem_erase hj)
      · right
        simp only [touch, hframe.mapNo, hframe.maps]
        exact hlast
  · -- the last entry comes first
    obtain rfl : i = t := by
      rcases List.mem_append.mp hi with hmem | hmem
      · exact absurd hmem hit
      · exact List.mem_singleton.mp hmem
    have herase : (init ++ [i]).erase i = init := by
      rw [List.erase_append_right _ hit, List.erase_cons_head, List.append_nil]
    rw [herase] at hleads hperm
    have hall := sorted_touch hcount hsorted hit
    rcases List.eq_nil_or_concat' init with rfl | ⟨front, x, rfl⟩
    · have hlen := h.listed.length
      simp at hlen
    · have happ : i :: (front ++ [x]) = (i :: front) ++ [x] := rfl
      rw [happ] at hleads hperm hall
      obtain ⟨hfront, -, hlast⟩ := List.pairwise_append.mp hall
      exact ⟨w', i :: front, x, hswap, ⟨hleads, congrArg some hhead.symm, hperm⟩, hentries,
        hcounted, hrecent, hfront, .inl fun j hj => hlast j hj x (List.mem_singleton_self x)⟩

/-! ## Mapping -/

/-- The last entry has no buffer any more, or none that counts. -/
structure Vacated (w : World) (init : List Nat) (t : Nat) : Prop where
  listed : Listed w init t
  entries : Held w (· ≠ t)
  counted : Counted w
  recent : Recent w (· ≠ t) (w.maps + 1)
  sorted : init.Pairwise fun i j => w.used j ≤ w.used i

theorem Listed.last_next (h : Listed w init t) : w.next t = none :=
  (leads_append.mp h.leads).2.1

theorem Listed.setNext (h : Listed w init t) (hnext : w'.next = w.next) (hhead : w'.head = w.head) :
    Listed (w'.bzero t) init t := by
  have heq : (w'.bzero t).next = w.next := by
    rw [bzero, next_setNext, hnext, Function.update_eq_self_iff, h.last_next]
  exact ⟨heq ▸ h.leads, hhead ▸ h.head, h.perm⟩

theorem Inv.vacant (h : Inv w init t) (hnone : (w.cache t).layerBuffer = none) :
    Vacated w init t := by
  have hne : ∀ i g, (w.cache i).layerBuffer = some g → i ≠ t := by
    rintro i g hg rfl
    rw [hnone] at hg
    cases hg
  refine ⟨h.listed, ?_, h.counted, ?_, h.sorted⟩
  · constructor
    · exact fun i g hi _ => h.entries.held i g hi trivial
    · exact fun i j g g' hi hj _ _ => h.entries.single i j g g' hi hj trivial trivial
    · intro p b hp
      obtain ⟨i, g, hi, -, hg, hptr⟩ := h.entries.kept p b hp
      exact ⟨i, g, hi, hne i g hg, hg, hptr⟩
  · intro v n hn hlt
    obtain ⟨i, g, hi, -, hg, hv⟩ := h.recent v n hn (by omega)
    exact ⟨i, g, hi, hne i g hg, hg, hv⟩

theorem Inv.evict (h : Inv w init t) {g : NativeHandle} (hbuf : (w.cache t).layerBuffer = some g)
    (hok : o.unmapOk = true) (hold : w.mapNo t + 5 ≤ w.maps) : Vacated (evict w t o) init t := by
  have ht : t < mapCacheMaxSz := h.listed.mem_iff.mpr (.inr rfl)
  obtain ⟨p, -, hp, hmap⟩ := h.entries.held t g ht trivial hbuf
  let u : World := { w with mappings := update w.mappings p none }
  have heq : Hwc.evict w t o = u.bzero t := by
    rw [Hwc.evict, hbuf, hp, hok]
    rfl
  have hframe : Frame u (u.bzero t) := frame_setNext u t none
  rw [heq]
  refine ⟨h.listed.setNext rfl rfl, ?_, ?_, ?_, ?_⟩
  · refine Held.congr (w := u) ?_ hframe.buffers hframe.pointers hframe.mappings
    constructor
    · intro i g' hi hit hg'
      obtain ⟨q, hq0, hq, hqm⟩ := h.entries.held i g' hi trivial hg'
      have hqp : q ≠ p := by
        rintro rfl
        exact hit (h.entries.single i t g' g hi ht trivial trivial hg' hbuf (hq.trans hp.symm))
      exact ⟨q, hq0, hq, (update_of_ne hqp _ _).trans hqm⟩
    · exact fun i j g g' hi hj _ _ => h.entries.single i j g g' hi hj trivial trivial
    · intro q b hq
      by_cases hqp : q = p
      · rw [hqp] at hq
        have hnone : u.mappings p = none := update_self p _ _
        rw [hnone] at hq
        cases hq
      · have hq' : w.mappings q = some b := (update_of_ne hqp _ _).symm.trans hq
        obtain ⟨i, g', hi, -, hg', hptr⟩ := h.entries.kept q b hq'
        refine ⟨i, g', hi, ?_, hg', hptr⟩
        rintro rfl
        exact hqp (Option.some.inj (hptr.symm.trans hp))
  · exact ⟨h.counted.used, h.counted.mapNo, h.counted.lastMap⟩
  · intro v n hn hlt
    have hlt' : w.maps + 1 < n + 6 := hlt
    obtain ⟨i, g', hi, -, hg', hv, hno⟩ := h.recent v n hn (by omega)
    refine ⟨i, g', hi, ?_, (hframe.buffers i).trans hg', hv, hno⟩
    rintro rfl
    omega
  · exact h.sorted

theorem memMgrMap_eq_some {mappings : Addr → Option Block} {found : Option Addr}
    (h : memMgrMap mappings found = some p) : p ≠ 0 ∧ mappings p = none := by
  have hfree := (Option.filter_eq_some_iff.mp h).2
  simpa using hfree

theorem Vacated.fill (h : Vacated w init t) (hndl : NativeHandle)
    (hp : memMgrMap w.mappings o.mapped = some p) :
    Inv (fill w hndl t o).2 init t := by
  obtain ⟨hp0, hfree⟩ := memMgrMap_eq_some hp
  have ht : t < mapCacheMaxSz := h.listed.mem_iff.mpr (.inr rfl)
  have hnd := h.listed.nodup
  let c : CachedBuffer := { w.cache t with
    layerBuffer := some hndl, mappedPtr := some p, type := .user, useCnt := 1 }
  generalize hu : (Hwc.fill w hndl t o).2 = u
  have hcache : u.cache = update w.cache t c := by
    rw [← hu, Hwc.fill, hp]
    rfl
  have hmappings : u.mappings = update w.mappings p (some hndl.block) := by
    rw [← hu, Hwc.fill, hp]
    rfl
  have hmaps : u.maps = w.maps + 1 := by
    rw [← hu, Hwc.fill, hp]
    rfl
  have hmapNo : u.mapNo = update w.mapNo t (w.maps + 1) := by
    rw [← hu, Hwc.fill, hp]
    rfl
  have hlastMap : u.lastMap = update w.lastMap hndl.vptr (some (w.maps + 1)) := by
    rw [← hu, Hwc.fill, hp]
    rfl
  have hused : u.used = update w.used t (w.clock + 1) := by
    rw [← hu, Hwc.fill, hp]
    rfl
  have hclock : u.clock = w.clock + 1 := by
    rw [← hu, Hwc.fill, hp]
    rfl
  have hhead : u.head = w.head := by
    rw [← hu, Hwc.fill, hp]
    rfl
  have hself : u.cache t = c := by rw [hcache, update_self]
  have hother : ∀ i, i ≠ t → u.cache i = w.cache i := fun i hi => by
    rw [hcache, update_of_ne hi]
  have hnext : u.next = w.next := by
    funext i
    by_cases hi : i = t
    · rw [hi, World.next, hself, World.next]
    · rw [World.next, hother i hi, World.next]
  have hnotin : ∀ i ∈ init, i ≠ t := fun i hi =>
    (List.nodup_append.mp hnd).2.2 i hi t (List.mem_singleton_self t)
  -- a mapping of another entry is not at the new address
  have hptr : ∀ i g, i < mapCacheMaxSz → i ≠ t → (w.cache i).layerBuffer = some g →
      (w.cache i).mappedPtr ≠ some p := by
    intro i g hi hit hg heq
    obtain ⟨q, -, hq, hqm⟩ := h.entries.held i g hi hit hg
    cases hq.symm.trans heq
    rw [hfree] at hqm
    cases hqm
  constructor
  case listed => exact ⟨hnext ▸ h.listed.leads, hhead ▸ h.listed.head, h.listed.perm⟩
  case entries =>
    constructor
    · intro i g hi _ hg
      by_cases hit : i = t
      · subst hit
        rw [hself] at hg ⊢
        cases hg
        exact ⟨p, hp0, rfl, by rw [hmappings, update_self]⟩
      · rw [hother i hit] at hg ⊢
        obtain ⟨q, hq0, hq, hqm⟩ := h.entries.held i g hi hit hg
        have hqp : q ≠ p := fun heq => hptr i g hi hit hg (heq ▸ hq)
        exact ⟨q, hq0, hq, by rw [hmappings, update_of_ne hqp, hqm]⟩
    · intro i j g g' hi hj _ _ hg hg' heq
      by_cases hit : i = t <;> by_cases hjt : j = t
      · rw [hit, hjt]
      · rw [hit, hself, hother j hjt] at heq
        rw [hother j hjt] at hg'
        exact absurd heq.symm (hptr j g' hj hjt hg')
      · rw [hjt, hself, hother i hit] at heq
        rw [hother i hit] at hg
        exact absurd heq (hptr i g hi hit hg)
      · rw [hother i hit] at hg heq
        rw [hother j hjt] at hg' heq
        exact h.entries.single i j g g' hi hj hit hjt hg hg' heq
    · intro q b hq
      by_cases hqp : q = p
      · exact ⟨t, hndl, ht, trivial, by rw [hself], by rw [hself, hqp]⟩
      · rw [hmappings, update_of_ne hqp] at hq
        obtain ⟨i, g, hi, hit, hg, hptr'⟩ := h.entries.kept q b hq
        exact ⟨i, g, hi, trivial, by rw [hother i hit, hg], by rw [hother i hit, hptr']⟩
  case counted =>
    constructor
    · intro i
      have hle := h.counted.used i
      rw [hused, hclock]
      by_cases hit : i = t
      · rw [hit]
        exact Nat.le_of_eq (update_self t _ _)
      · rw [update_of_ne hit]
        omega
    · intro i
      have hle := h.counted.mapNo i
      rw [hmapNo, hmaps]
      by_cases hit : i = t
      · rw [hit]
        exact Nat.le_of_eq (update_self t _ _)
      · rw [update_of_ne hit]
        omega
    · intro v n hn
      rw [hlastMap] at hn
      rw [hmaps]
      by_cases hv : v = hndl.vptr
      · rw [hv, update_self] at hn
        exact Nat.le_of_eq (Option.some.inj hn).symm
      · rw [update_of_ne hv] at hn
        have hle := h.counted.lastMap v n hn
        omega
  case recent =>
    intro v n hn hlt
    rw [hlastMap] at hn
    rw [hmaps] at hlt
    by_cases hv : v = hndl.vptr
    · rw [hv, update_self] at hn
      refine ⟨t, hndl, ht, trivial, by rw [hself], hv.symm, ?_⟩
      rw [hmapNo, update_self]
      exact Option.some.inj hn
    · rw [update_of_ne hv] at hn
      obtain ⟨i, g, hi, hit, hg, hgv, hno⟩ := h.recent v n hn hlt
      refine ⟨i, g, hi, trivial, by rw [hother i hit, hg], hgv, ?_⟩
      rw [hmapNo, update_of_ne hit, hno]
  case sorted =>
    refine h.sorted.imp_of_mem ?_
    intro i j hi hj hij
    rw [hused, update_of_ne (hnotin i hi), update_of_ne (hnotin j hj)]
    exact hij
  case last =>
    right
    rw [hmapNo, update_self, hmaps]

theorem Inv.fill_failed (h : Inv w init t) (hnone : (w.cache t).layerBuffer = none)
    (hfail : memMgrMap w.mappings o.mapped = none) : Inv (fill w hndl t o).2 init t := by
  let u := w.setEntry t { w.cache t with mappedPtr := none }
  have hbuf : ∀ i, (u.cache i).layerBuffer = (w.cache i).layerBuffer := by
    intro i
    by_cases hit : i = t
    · rw [hit, cache_setEntry_self]
    · rw [cache_setEntry_ne _ _ hit]
  have hnext : u.next = w.next := by
    funext i
    by_cases hit : i = t
    · rw [hit, World.next, cache_setEntry_self, World.next]
    · rw [World.next, cache_setEntry_ne _ _ hit, World.next]
  have hframe : Frame u (u.bzero t) := frame_setNext u t none
  have heq : (Hwc.fill w hndl t o).2 = u.bzero t := by
    rw [Hwc.fill, hfail]
  have hbuf' : ∀ i, ((u.bzero t).cache i).layerBuffer = (w.cache i).layerBuffer := fun i =>
    (hframe.buffers i).trans (hbuf i)
  -- the pointer that was cleared belonged to no buffer
  have hptr : ∀ i g, ((u.bzero t).cache i).layerBuffer = some g →
      ((u.bzero t).cache i).mappedPtr = (w.cache i).mappedPtr := by
    intro i g hg
    have hit : i ≠ t := by
      rintro rfl
      rw [hbuf', hnone] at hg
      cases hg
    rw [hframe.pointers, cache_setEntry_ne _ _ hit]
  rw [heq]
  refine ⟨h.listed.setNext hnext rfl, ?_,
    ⟨h.counted.used, h.counted.mapNo, h.counted.lastMap⟩, h.recent.congr hbuf' rfl rfl, h.sorted,
    h.last⟩
  constructor
  · intro i g hi _ hg
    rw [hptr i g hg]
    rw [hbuf'] at hg
    exact h.entries.held i g hi trivial hg
  · intro i j g g' hi hj _ _ hg hg' hij
    rw [hptr i g hg, hptr j g' hg'] at hij
    rw [hbuf'] at hg hg'
    exact h.entries.single i j g g' hi hj trivial trivial hg hg' hij
  · intro p b hp
    obtain ⟨i, g, hi, -, hg, hpi⟩ := h.entries.kept p b hp
    have hg' := (hbuf' i).trans hg
    exact ⟨i, g, hi, trivial, hg', (hptr i g hg').trans hpi⟩

/-! ## Runs -/

theorem Inv.start : Inv start [0, 1, 2, 3, 4] 5 where
  listed := by
    refine ⟨?_, rfl, by decide⟩
    simp [Leads, World.next, Hwc.start, initCachedBuffers, mapCacheMaxSz]
  entries := by
    have hnone : ∀ i, (Hwc.start.cache i).layerBuffer = none := by
      intro i
      simp only [Hwc.start, initCachedBuffers]
      split
      · rfl
      · split <;> rfl
    constructor
    · intro i h _ _ hh
      rw [hnone] at hh
      cases hh
    · intro i j h h' _ _ _ _ hh
      rw [hnone] at hh
      cases hh
    · intro p b hp
      cases hp
  counted := ⟨fun _ => Nat.le_refl _, fun _ => Nat.le_refl _, fun v n hn => by cases hn⟩
  recent := fun v n hn => by cases hn
  sorted := by decide
  last := .inr rfl

theorem step_get (hndl : NativeHandle) (h : Inv w init t) :
    (step w (.get hndl) = some w) ∨
      ∃ i w', i ∈ init ++ [t] ∧ swapHead w i = some w' ∧
        step w (.get hndl) = some (w'.touch i) := by
  rw [step, getCachedBuffer]
  split
  · exact .inl rfl
  · rw [h.listed.findBuf]
    cases hfind : (init ++ [t]).find? (holds w hndl.vptr) with
    | none => exact .inl rfl
    | some i =>
      have hi := List.mem_of_find?_eq_some hfind
      obtain ⟨w', hswap, -⟩ := h.listed.swapHead hi
      refine .inr ⟨i, w', hi, hswap, ?_⟩
      simp [hswap]

theorem step_map (layer : Option NativeHandle) (o : Outcome) (h : Inv w init t) :
    (step w (.map layer o) = some w ∧ ∀ hndl, layer = some hndl → hndl.nv12 = true) ∨
      ∃ hndl, layer = some hndl ∧ hndl.nv12 = false ∧
        step w (.map layer o) = some (fill (evict w t o) hndl t o).2 := by
  cases layer with
  | none => exact .inl ⟨rfl, fun _ h => by cases h⟩
  | some hndl =>
    cases hnv : hndl.nv12 with
    | true =>
      exact .inl ⟨by simp [step, mapCachedBuffer, hnv], fun g hg => Option.some.inj hg ▸ hnv⟩
    | false =>
      exact .inr ⟨hndl, rfl, hnv, by simp [step, mapCachedBuffer, hnv, h.listed.getLru]⟩

theorem Inv.least (h : Inv w init t) (hold : w.mapNo t ≠ w.maps) {j : Nat}
    (hj : j < mapCacheMaxSz) :
    w.used t ≤ w.used j := by
  rcases h.last with hlast | hlast
  · rcases h.listed.mem_iff.mp hj with hmem | rfl
    · exact hlast j hmem
    · exact Nat.le_refl _
  · exact absurd hlast hold

theorem evict_vacant (hnone : (w.cache t).layerBuffer = none) :
    evict w t o = w := by
  rw [evict, hnone]

theorem Inv.step {c : Call} (h : Inv w init t) (hfits : Fits w c) :
    Keeps w c ∧ ∃ w' init' t', step w c = some w' ∧ Inv w' init' t' := by
  cases c with
  | get hndl =>
    rcases step_get hndl h with heq | ⟨i, w', hi, hswap, heq⟩
    · exact ⟨⟨⟨w, heq, h.sound⟩, trivial⟩, w, init, t, heq, h⟩
    · obtain ⟨w'', init', t', hswap', hinv⟩ := h.get hi
      cases hswap.symm.trans hswap'
      exact ⟨⟨⟨_, heq, hinv.sound⟩, trivial⟩, _, init', t', heq, hinv⟩
  | map layer o =>
    rcases step_map layer o h with ⟨heq, hnv⟩ | ⟨hndl, hlayer, hnv, heq⟩
    · refine ⟨⟨⟨w, heq, h.sound⟩, ?_⟩, w, init, t, heq, h⟩
      intro hndl i g hlayer hnot
      rw [hnv hndl hlayer] at hnot
      cases hnot
    · have hlru := h.listed.getLru
      cases hbuf : (w.cache t).layerBuffer with
      | none =>
        have hinv : Inv (Hwc.fill (Hwc.evict w t o) hndl t o).2 init t := by
          rw [evict_vacant hbuf]
          cases hp : memMgrMap w.mappings o.mapped with
          | none => exact h.fill_failed hbuf hp
          | some p => exact (h.vacant hbuf).fill _ hp
        refine ⟨⟨⟨_, heq, hinv.sound⟩, ?_⟩, _, init, t, heq, hinv⟩
        intro g i g' _ _ hi hg'
        cases hlru.symm.trans hi
        rw [hbuf] at hg'
        cases hg'
      | some g =>
        obtain ⟨hok, hmap, hold⟩ := hfits hndl t g hlayer hnv hlru hbuf
        obtain ⟨p, hp⟩ := Option.ne_none_iff_exists'.mp hmap
        have hinv := (h.evict hbuf hok hold).fill hndl hp
        refine ⟨⟨⟨_, heq, hinv.sound⟩, ?_⟩, _, init, t, heq, hinv⟩
        intro g' i g'' _ _ hi hg'
        cases hlru.symm.trans hi
        have ht : t < mapCacheMaxSz := h.listed.mem_iff.mpr (.inr rfl)
        obtain ⟨q, -, hq, hqm⟩ := h.entries.held t g ht trivial hbuf
        exact ⟨⟨q, _, hq, hqm⟩, fun j hj => h.least (by omega) hj⟩

/-! ## Buffers that are mapped when they are not in the cache -/

/-- No buffer has two entries, and that of a buffer has its last mapping. -/
structure Apart (w : World) : Prop where
  one : ∀ i j h h', i < mapCacheMaxSz → j < mapCacheMaxSz → (w.cache i).layerBuffer = some h →
    (w.cache j).layerBuffer = some h' → h.vptr = h'.vptr → i = j
  last : ∀ i h, i < mapCacheMaxSz → (w.cache i).layerBuffer = some h →
    w.lastMap h.vptr = some (w.mapNo i)

theorem Apart.congr (h : Apart w) (hbuf : ∀ i, (w'.cache i).layerBuffer = (w.cache i).layerBuffer)
    (hno : w'.mapNo = w.mapNo) (hlast : w'.lastMap = w.lastMap) : Apart w' := by
  constructor
  · simp only [hbuf]
    exact h.one
  · simp only [hbuf, hno, hlast]
    exact h.last

theorem evict_frame :
    (∀ i, ((evict w t o).cache i).layerBuffer = (w.cache i).layerBuffer) ∧
      (∀ i, ((evict w t o).cache i).mappedPtr = (w.cache i).mappedPtr) ∧
      (evict w t o).mapNo = w.mapNo ∧ (evict w t o).lastMap = w.lastMap ∧
      (evict w t o).maps = w.maps := by
  rw [evict]
  split
  · exact ⟨fun _ => rfl, fun _ => rfl, rfl, rfl, rfl⟩
  · have hframe := frame_setNext
      { w with mappings := memMgrUnMap w.mappings (w.cache t).mappedPtr o.unmapOk } t none
    exact ⟨hframe.buffers, hframe.pointers, hframe.mapNo, hframe.lastMap, hframe.maps⟩

theorem fill_buffers (t : Nat) (hndl : NativeHandle) (hp : memMgrMap w.mappings o.mapped = some p)
    (i : Nat) :
    ((fill w hndl t o).2.cache i).layerBuffer =
        (if i = t then some hndl else (w.cache i).layerBuffer) ∧
      ((fill w hndl t o).2.cache i).mappedPtr =
        (if i = t then some p else (w.cache i).mappedPtr) := by
  rw [fill, hp]
  by_cases hit : i = t
  · simp [hit, touch, setEntry]
  · simp [hit, touch, setEntry]

theorem fill_failed_buffers (t : Nat) (hndl : NativeHandle)
    (hp : memMgrMap w.mappings o.mapped = none) (i : Nat) :
    ((fill w hndl t o).2.cache i).layerBuffer = (w.cache i).layerBuffer ∧
      (i = t → ((fill w hndl t o).2.cache i).mappedPtr = none) := by
  have hframe := frame_setNext (w.setEntry t { w.cache t with mappedPtr := none }) t none
  rw [fill, hp]
  constructor
  · rw [bzero, hframe.buffers]
    by_cases hit : i = t
    · rw [hit, cache_setEntry_self]
    · rw [cache_setEntry_ne _ _ hit]
  · rintro rfl
    rw [bzero, hframe.pointers, cache_setEntry_self]

theorem Apart.fill (h : Apart w) (hp : memMgrMap w.mappings o.mapped = some p)
    (hnew : ∀ i g, i < mapCacheMaxSz → (w.cache i).layerBuffer = some g → g.vptr ≠ hndl.vptr) :
    Apart (fill w hndl t o).2 := by
  have hbuf := fun i => (fill_buffers t hndl hp i).1
  have hmapNo : (Hwc.fill w hndl t o).2.mapNo = update w.mapNo t (w.maps + 1) := by
    rw [Hwc.fill, hp]
    rfl
  have hlastMap : (Hwc.fill w hndl t o).2.lastMap =
      update w.lastMap hndl.vptr (some (w.maps + 1)) := by
    rw [Hwc.fill, hp]
    rfl
  constructor
  · intro i j g g' hi hj hg hg' hv
    rw [hbuf] at hg hg'
    split at hg <;> split at hg'
    · next hit hjt => rw [hit, hjt]
    · cases hg
      exact absurd hv.symm (hnew j g' hj hg')
    · cases hg'
      exact absurd hv (hnew i g hi hg)
    · exact h.one i j g g' hi hj hg hg' hv
  · intro i g hi hg
    rw [hbuf] at hg
    rw [hmapNo, hlastMap]
    split at hg
    · next hit =>
      cases hg
      rw [hit, update_self, update_self]
    · next hit =>
      rw [update_of_ne hit, update_of_ne (hnew i g hi hg)]
      exact h.last i g hi hg

theorem not_cached (h : Inv w init t) (hnone : findBuf w hndl = some none) {g : NativeHandle}
    (hi : i < mapCacheMaxSz) (hg : (w.cache i).layerBuffer = some g) : g.vptr ≠ hndl.vptr := by
  intro hv
  obtain ⟨j, hj⟩ := h.listed.findBuf_isSome.mpr ⟨i, g, hi, hg, hv⟩
  rw [hnone] at hj
  cases hj

theorem Apart.step {c : Call} (ha : Apart w) (h : Inv w init t) (hnew : NotCached w c)
    (hstep : step w c = some w') : Apart w' := by
  cases c with
  | get hndl =>
    rcases step_get hndl h with heq | ⟨i, u, hi, hswap, heq⟩
    · cases heq.symm.trans hstep
      exact ha
    · cases heq.symm.trans hstep
      obtain ⟨u', hswap', hframe, -⟩ := h.listed.swapHead hi
      cases hswap.symm.trans hswap'
      exact ha.congr hframe.buffers hframe.mapNo hframe.lastMap
  | map layer o =>
    rcases step_map layer o h with ⟨heq, -⟩ | ⟨hndl, hlayer, -, heq⟩
    · cases heq.symm.trans hstep
      exact ha
    · cases heq.symm.trans hstep
      obtain ⟨hbuf, -, hno, hlast, -⟩ := evict_frame (w := w) (t := t) (o := o)
      have hev : Apart (evict w t o) := ha.congr hbuf hno hlast
      cases hp : memMgrMap (evict w t o).mappings o.mapped with
      | some p =>
        refine hev.fill hp ?_
        intro i g hi hg
        rw [hbuf] at hg
        exact not_cached h (hnew hndl hlayer) hi hg
      | none =>
        have hsame := fun i => (fill_failed_buffers t hndl hp i).1
        have hrest : (Hwc.fill (evict w t o) hndl t o).2.mapNo = (evict w t o).mapNo ∧
            (Hwc.fill (evict w t o) hndl t o).2.lastMap = (evict w t o).lastMap := by
          rw [Hwc.fill, hp]
          exact ⟨rfl, rfl⟩
        exact hev.congr hsame hrest.1 hrest.2

theorem fits_of_keeps {c : Call} (h : Inv w init t) (ha : Apart w) (hnew : NotCached w c)
    (hkeeps : Keeps w c) : Fits w c := by
  cases c with
  | get hndl => trivial
  | map layer o =>
    intro hndl i g hlayer hnv hlru hbuf
    cases h.listed.getLru.symm.trans hlru
    obtain ⟨⟨w', hstep, hsound⟩, -⟩ := hkeeps
    have ht : t < mapCacheMaxSz := h.listed.mem_iff.mpr (.inr rfl)
    have hw' : w' = (Hwc.fill (evict w t o) hndl t o).2 := by
      rcases step_map layer o h with ⟨-, hall⟩ | ⟨hndl', hlayer', -, heq⟩
      · rw [hall hndl hlayer] at hnv
        cases hnv
      · cases hlayer.symm.trans hlayer'
        exact Option.some.inj (hstep.symm.trans heq)
    subst hw'
    obtain ⟨hbuf', hptr', -, hlast', hmaps'⟩ := evict_frame (w := w) (t := t) (o := o)
    obtain ⟨p, -, hp, hpm⟩ := h.entries.held t g ht trivial hbuf
    cases hmap : memMgrMap (evict w t o).mappings o.mapped with
    | none =>
      -- the buffer stays in its entry without a mapping
      obtain ⟨hfbuf, hfptr⟩ := fill_failed_buffers t hndl hmap t
      obtain ⟨q, -, hq, -⟩ := hsound.held t g ht (hfbuf.trans ((hbuf' t).trans hbuf))
      rw [hfptr rfl] at hq
      cases hq
    | some q =>
      obtain ⟨-, hqfree⟩ := memMgrMap_eq_some hmap
      have hfill := fun i => fill_buffers t hndl hmap i
      refine ⟨?_, by simp, ?_⟩
      · by_contra hok
        have hok : o.unmapOk = false := Bool.of_not_eq_true hok
        -- the old mapping is still there, and no entry has it
        have hmappings : (evict w t o).mappings = w.mappings := by
          rw [evict, hbuf, hp, hok]
          rfl
        have hqp : p ≠ q := by
          rintro rfl
          rw [hmappings, hpm] at hqfree
          cases hqfree
        have hstill : (Hwc.fill (evict w t o) hndl t o).2.mappings p = some g.block := by
          rw [Hwc.fill, hmap]
          exact (update_of_ne hqp _ _).trans ((congrFun hmappings p).trans hpm)
        obtain ⟨i, g', hi, hg', hpi⟩ := hsound.kept p _ hstill
        rw [(hfill i).1] at hg'
        rw [(hfill i).2] at hpi
        split at hpi
        · exact hqp (Option.some.inj hpi).symm
        · next hit =>
          rw [if_neg hit, hbuf'] at hg'
          rw [hptr'] at hpi
          exact hit (h.entries.single i t g' g hi ht trivial trivial hg' hbuf (hpi.trans hp.symm))
      · by_contra hold
        have hgv : g.vptr ≠ hndl.vptr := not_cached h (hnew hndl hlayer) ht hbuf
        have hlast := ha.last t g ht hbuf
        have hmaps : (Hwc.fill (evict w t o) hndl t o).2.maps = w.maps + 1 := by
          rw [Hwc.fill, hmap, ← hmaps']
          rfl
        have hlastMap : (Hwc.fill (evict w t o) hndl t o).2.lastMap g.vptr =
            some (w.mapNo t) := by
          rw [Hwc.fill, hmap]
          exact (update_of_ne hgv _ _).trans ((congrFun hlast' g.vptr).trans hlast)
        obtain ⟨i, hi⟩ := hsound.found g (w.mapNo t) hlastMap (by rw [hmaps]; omega)
        obtain ⟨l, hleads, hhead, hperm⟩ := hsound.list
        obtain ⟨front, x, rfl⟩ : ∃ front x, l = front ++ [x] := by
          rcases List.eq_nil_or_concat' l with rfl | hx
          · cases hhead
          · exact hx
        have hlisted : Listed _ front x := ⟨hleads, hhead, hperm⟩
        obtain ⟨j, g', hj, hg', hv⟩ := hlisted.findBuf_isSome.mp ⟨i, hi⟩
        rw [(hfill j).1] at hg'
        split at hg'
        · cases hg'
          exact hgv hv.symm
        · next hjt =>
          rw [hbuf'] at hg'
          exact hjt (ha.one j t g' g hj ht hg' hbuf hv)

theorem Apart.start : Apart start := by
  have h := Inv.start
  constructor
  · intro i j g g' hi _ hg
    obtain ⟨p, -, -, hp⟩ := h.entries.held i g hi trivial hg
    cases hp
  · intro i g hi hg
    obtain ⟨p, -, -, hp⟩ := h.entries.held i g hi trivial hg
    cases hp

/-- The cache is as it should be in every run whose mappings fit. Where buffers are looked up
before they are mapped, it is so in no other run. -/
theorem cache_sound (calls : List Call) :
    (Guarded step Fits start calls → Guarded step Keeps start calls) ∧
    (Guarded step NotCached start calls →
      (Guarded step Keeps start calls ↔ Guarded step Fits start calls)) := by
  have hfits : Guarded step Fits start calls → Guarded step Keeps start calls := by
    intro h
    have hboth : Guarded step (fun w c => Fits w c ∧ Keeps w c) start calls := by
      refine (guarded_congr (J := fun w => ∃ init t, Inv w init t) ?_ ?_ ⟨_, _, Inv.start⟩).mpr h
      · rintro w c ⟨init, t, hw⟩
        exact and_iff_left_of_imp fun hc => (hw.step hc).1
      · rintro w c w' ⟨init, t, hw⟩ hc hstep
        obtain ⟨-, w'', init', t', hstep', hinv⟩ := hw.step hc
        cases hstep'.symm.trans hstep
        exact ⟨init', t', hinv⟩
    exact (guarded_and.mp hboth).2
  refine ⟨hfits, fun hnew => ⟨fun hkeeps => ?_, hfits⟩⟩
  have hboth := guarded_and.mpr ⟨hnew, hkeeps⟩
  have hall : Guarded step (fun w c => NotCached w c ∧ Fits w c) start calls := by
    refine (guarded_congr (J := fun w => Apart w ∧ ∃ init t, Inv w init t) ?_ ?_
      ⟨Apart.start, _, _, Inv.start⟩).mp hboth
    · rintro w c ⟨ha, init, t, hw⟩
      exact and_congr_right fun hc =>
        ⟨fits_of_keeps hw ha hc, fun hf => (hw.step hf).1⟩
    · rintro w c w' ⟨ha, init, t, hw⟩ ⟨hc, hf⟩ hstep
      obtain ⟨-, w'', init', t', hstep', hinv⟩ := hw.step hf
      cases hstep'.symm.trans hstep
      exact ⟨ha.step hw hc hstep, init', t', hinv⟩
  exact (guarded_and.mp hall).2

/-- Two buffers, of 4 KB each. -/
def bufferOne : NativeHandle := ⟨0x10000, false, 0x1000⟩

def bufferTwo : NativeHandle := ⟨0x20000, false, 0x1000⟩

instance (w : World) (c : Call) : Decidable (Fits w c) :=
  match c with
  | .get _ => isTrue trivial
  | .map layer o => decidable_of_iff (∀ hndl ∈ layer, hndl.nv12 = false → ∀ i ∈ getLru w,
      ∀ _ ∈ (w.cache i).layerBuffer, o.unmapOk = true ∧
        memMgrMap (evict w i o).mappings o.mapped ≠ none ∧ w.mapNo i + 5 ≤ w.maps)
    ⟨fun h hndl i b hl hn hi hb => h hndl hl hn i hi b hb,
      fun h hndl hl hn i hi b hb => h hndl i b hl hn hi hb⟩

/-- A new buffer is mapped and looked up. -/
def frame (n : UInt32) : List Call :=
  [.map (some ⟨n <<< 16, false, 0x1000⟩) ⟨true, some (n <<< 20)⟩, .get ⟨n <<< 16, false, 0x1000⟩]

/-- Six buffers fill the cache, and the seventh takes the place of the first. -/
theorem cache_sound_seven :
    Guarded step Keeps start ([1, 2, 3, 4, 5, 6, 7].flatMap frame) ∧
      (run step start ([1, 2, 3, 4, 5, 6, 7].flatMap frame)).map
        (fun w => [0x10000, 0x20000, 0x70000].map fun v => findBuf w ⟨v, false, 0x1000⟩) =
        some [some none, some (some 4), some (some 5)] :=
  ⟨(cache_sound _).1 (by decide +kernel), by decide +kernel⟩

/-- Of two buffers that are mapped in one frame, the second takes the place of the first. -/
theorem cache_not_sound :
    (∃ w, run step start [.map (some bufferOne) ⟨true, some 0x80000⟩,
        .map (some bufferTwo) ⟨true, some 0x90000⟩] = some w ∧
      findBuf w bufferOne = some none ∧ findBuf w bufferTwo = some (some 5)) ∧
    ¬ Guarded step Keeps start [.map (some bufferOne) ⟨true, some 0x80000⟩,
      .map (some bufferTwo) ⟨true, some 0x90000⟩] := by
  refine ⟨⟨_, rfl, by decide, by decide⟩, ?_⟩
  rintro ⟨-, hrest⟩
  obtain ⟨⟨⟨w, hstep, hsound⟩, -⟩, -⟩ := hrest _ rfl
  cases hstep
  obtain ⟨i, hi⟩ := hsound.found bufferOne 1 (by decide) (by decide)
  cases hi

end Omap4Hal.Hwc

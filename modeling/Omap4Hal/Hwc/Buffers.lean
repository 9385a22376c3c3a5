import Mathlib.Data.List.Perm.Basic
import Omap4Hal.Lib.Chain

/- The cache of the composer's mappings (`hwc_buffers.cpp`): six entries in a list that is kept in
   the order of their use, of which the last one is given to the next buffer.

   A lookup moves the entry to the head of the list. A mapping does not, so that the entry is
   still the last one for the next buffer; and where the mapping fails, `bzero` clears no more of
   the entry than its link, as the size is that of a pointer. `Listed` says what the list is. -/
namespace Omap4Hal.Hwc

open Lib
open Function (update update_of_ne update_self)

/-! ## The cache -/

abbrev Addr := UInt32

/-- `HAL_PIXEL_FORMAT_NV12` is the only format that matters. -/
structure NativeHandle where
  vptr : Addr
  nv12 : Bool
  mSize : UInt32
  deriving DecidableEq

inductive BufType
  | tiler
  | user
  deriving DecidableEq

structure CachedBuffer where
  next : Option Nat := none
  layerBuffer : Option NativeHandle := none
  mappedPtr : Option Addr := none
  type : BufType := .tiler
  useCnt : Nat := 0
  deriving DecidableEq

def mapCacheMaxSz : Nat := 6

/-- The first page of a mapping, and its length. -/
structure Block where
  ptr : Addr
  len : UInt32
  deriving DecidableEq

/-- `g_map_cache`, `g_head` and what is mapped. In addition: when an entry was mapped or looked up
last, the number of its mapping, and of the last mapping of a buffer. -/
structure World where
  cache : Nat → CachedBuffer := fun _ => {}
  head : Nat := 0
  mappings : Addr → Option Block := fun _ => none
  clock : Nat := 0
  used : Nat → Nat := fun _ => 0
  maps : Nat := 0
  mapNo : Nat → Nat := fun _ => 0
  lastMap : Addr → Option Nat := fun _ => none

def World.next (w : World) (i : Nat) : Option Nat := (w.cache i).next

def World.setEntry (w : World) (i : Nat) (c : CachedBuffer) : World :=
  { w with cache := update w.cache i c }

def World.setNext (w : World) (i : Nat) (j : Option Nat) : World :=
  w.setEntry i { w.cache i with next := j }

/-- `init_cached_buffers`. The head stays as it is. -/
def initCachedBuffers (w : World) : World :=
  { w with cache := fun i =>
      if i + 1 < mapCacheMaxSz then { w.cache i with next := some (i + 1) }
      else if i + 1 = mapCacheMaxSz then { w.cache i with next := none }
      else w.cache i }

/-! ## Lookup -/

def holds (w : World) (v : Addr) (i : Nat) : Bool :=
  (w.cache i).layerBuffer.any fun h => h.vptr = v

def findBuf (w : World) (hndl : NativeHandle) : Option (Option Nat) :=
  walkFind w.next (holds w hndl.vptr) mapCacheMaxSz w.head

def getLru (w : World) : Option Nat := walkLast w.next mapCacheMaxSz w.head

/-- An entry that is not in the list is looked for behind its end. -/
def swapHead (w : World) (buf : Nat) : Option World :=
  if buf = w.head then some w
  else match walkFind w.next (fun i => w.next i = some buf) mapCacheMaxSz w.head with
    | some (some prev) =>
      let oldhead := w.head
      let w := w.setNext prev (w.next buf)
      let w := w.setNext buf (some oldhead)
      some { w with head := buf }
    | _ => none

/-- What is filled in of the caller's `cbuf`. -/
structure Found where
  layerBuffer : Option NativeHandle
  mappedPtr : Option Addr
  type : BufType
  deriving DecidableEq

/-- The moment of a lookup or a mapping of the entry. -/
def World.touch (w : World) (i : Nat) : World :=
  { w with clock := w.clock + 1, used := update w.used i (w.clock + 1) }

/-- `get_cached_buffer`; without an answer it is -ENOENT. -/
def getCachedBuffer (w : World) (hndl : NativeHandle) : Option (Option Found × World) :=
  if hndl.nv12 then some (some ⟨some hndl, some hndl.vptr, .tiler⟩, w)
  else (findBuf w hndl).bind fun
    | none => some (none, w)
    | some i => (swapHead w i).map fun w =>
      let c := w.cache i
      (some ⟨c.layerBuffer, c.mappedPtr, c.type⟩, w.touch i)

/-! ## Mapping -/

def pageMask : UInt32 := 0xFFFFF000

def pageAlign (x : UInt32) : UInt32 := (x + ~~~pageMask) &&& pageMask

/-- The pages that the buffer lies in. -/
def NativeHandle.block (hndl : NativeHandle) : Block :=
  let st := hndl.vptr &&& pageMask
  ⟨st, pageAlign (hndl.vptr - st + hndl.mSize)⟩

/-- What `MemMgr_UnMap` and `MemMgr_Map` return. -/
structure Outcome where
  unmapOk : Bool
  mapped : Option Addr
  deriving DecidableEq

/-- A mapping is where nothing is mapped, and not at NULL. -/
def memMgrMap (mappings : Addr → Option Block) (found : Option Addr) : Option Addr :=
  found.filter fun p => p != 0 && (mappings p).isNone

/-- What is at an address that is unmapped is gone, unless `MemMgr_UnMap` fails. -/
def memMgrUnMap (mappings : Addr → Option Block) (p : Option Addr) (ok : Bool) :
    Addr → Option Block :=
  match p with
  | some p => if ok then update mappings p none else mappings
  | none => mappings

/-- `bzero(cbuf, sizeof(cbuf))`: the size is that of a pointer, and the link is the first field. -/
def World.bzero (w : World) (i : Nat) : World := w.setNext i none

/-- The entry is taken from its buffer. -/
def evict (w : World) (i : Nat) (o : Outcome) : World :=
  match (w.cache i).layerBuffer with
  | none => w
  | some _ =>
    { w with mappings := memMgrUnMap w.mappings (w.cache i).mappedPtr o.unmapOk }.bzero i

/-- The entry is given to the buffer, if it can be mapped. -/
def fill (w : World) (hndl : NativeHandle) (i : Nat) (o : Outcome) : Int × World :=
  match memMgrMap w.mappings o.mapped with
  | none => (-22, (w.setEntry i { w.cache i with mappedPtr := none }).bzero i)
  | some p =>
    let w := w.setEntry i { w.cache i with
      layerBuffer := some hndl, mappedPtr := some p, type := .user, useCnt := 1 }
    let w := { w with
      mappings := update w.mappings p (some hndl.block)
      maps := w.maps + 1
      mapNo := update w.mapNo i (w.maps + 1)
      lastMap := update w.lastMap hndl.vptr (some (w.maps + 1)) }
    (0, w.touch i)

def mapCachedBuffer (w : World) (layer : Option NativeHandle) (o : Outcome) :
    Option (Int × World) :=
  match layer with
  | none => some (-2, w)
  | some hndl =>
    if hndl.nv12 then some (0, w)
    else (getLru w).map fun i => fill (evict w i o) hndl i o

/-! ## The list -/

variable {w w' : World}

/-- The list of the entries; the last one is `t`. -/
structure Listed (w : World) (init : List Nat) (t : Nat) : Prop where
  leads : Leads w.next (init ++ [t]) none
  head : (init ++ [t]).head? = some w.head
  perm : (init ++ [t]).Perm (List.range mapCacheMaxSz)

variable {init : List Nat} {t i : Nat}

theorem Listed.nodup (h : Listed w init t) : (init ++ [t]).Nodup :=
  h.perm.nodup_iff.mpr List.nodup_range

theorem Listed.length (h : Listed w init t) : init.length = 5 := by
  have hlen := h.perm.length_eq
  rw [List.length_append, List.length_range, List.length_singleton, mapCacheMaxSz] at hlen
  omega

theorem Listed.mem_iff (h : Listed w init t) :
    i < mapCacheMaxSz ↔ i ∈ init ∨ i = t := by
  rw [← List.mem_range, ← h.perm.mem_iff, List.mem_append, List.mem_singleton]

theorem Listed.cons (h : Listed w init t) :
    ∃ xs, init ++ [t] = w.head :: xs ∧ xs.length < mapCacheMaxSz := by
  obtain ⟨xs, hxs⟩ := List.head?_eq_some_iff.mp h.head
  refine ⟨xs, hxs, ?_⟩
  have hlen := h.perm.length_eq
  rw [hxs, List.length_range, List.length_cons] at hlen
  omega

theorem Listed.getLru (h : Listed w init t) : getLru w = some t := by
  obtain ⟨xs, hxs, hlen⟩ := h.cons
  have hleads := h.leads
  rw [hxs] at hleads
  rw [Hwc.getLru, walkLast_eq hleads hlen, ← hxs, List.getLast?_concat]

theorem Listed.walkFind (h : Listed w init t) (p : Nat → Bool) :
    walkFind w.next p mapCacheMaxSz w.head = some ((init ++ [t]).find? p) := by
  obtain ⟨xs, hxs, hlen⟩ := h.cons
  have hleads := h.leads
  rw [hxs] at hleads ⊢
  exact walkFind_eq hleads hlen

theorem Listed.findBuf (h : Listed w init t) (hndl : NativeHandle) :
    findBuf w hndl = some ((init ++ [t]).find? (holds w hndl.vptr)) :=
  h.walkFind _

theorem holds_iff {v : Addr} :
    holds w v i = true ↔ ∃ h, (w.cache i).layerBuffer = some h ∧ h.vptr = v := by
  rw [holds, Option.any_eq_true]
  simp

theorem Listed.findBuf_isSome (hl : Listed w init t) {hndl : NativeHandle} :
    (∃ i, Hwc.findBuf w hndl = some (some i)) ↔
      ∃ i h, i < mapCacheMaxSz ∧ (w.cache i).layerBuffer = some h ∧ h.vptr = hndl.vptr := by
  rw [hl.findBuf]
  constructor
  · rintro ⟨i, hi⟩
    have hfind := Option.some.inj hi
    obtain ⟨h, hbuf, hv⟩ := holds_iff.mp (List.find?_some hfind)
    have hmem := List.mem_of_find?_eq_some hfind
    rw [List.mem_append, List.mem_singleton] at hmem
    exact ⟨i, h, hl.mem_iff.mpr hmem, hbuf, hv⟩
  · rintro ⟨i, h, hi, hbuf, hv⟩
    have hmem : i ∈ init ++ [t] := by
      rw [List.mem_append, List.mem_singleton]
      exact hl.mem_iff.mp hi
    cases hfind : (init ++ [t]).find? (holds w hndl.vptr) with
    | some j => exact ⟨j, rfl⟩
    | none => exact absurd (holds_iff.mpr ⟨h, hbuf, hv⟩) (List.find?_eq_none.mp hfind i hmem)

/-- Everything but the list is as it was. -/
structure Frame (w w' : World) : Prop where
  buffers : ∀ i, (w'.cache i).layerBuffer = (w.cache i).layerBuffer
  pointers : ∀ i, (w'.cache i).mappedPtr = (w.cache i).mappedPtr
  mappings : w'.mappings = w.mappings
  clock : w'.clock = w.clock
  used : w'.used = w.used
  maps : w'.maps = w.maps
  mapNo : w'.mapNo = w.mapNo
  lastMap : w'.lastMap = w.lastMap

theorem Frame.refl (w : World) : Frame w w := by
  constructor <;> intros <;> rfl

theorem cache_setEntry_self (w : World) (i : Nat) (c : CachedBuffer) :
    (w.setEntry i c).cache i = c := by
  simp [World.setEntry]

theorem cache_setEntry_ne (w : World) {k : Nat} (c : CachedBuffer) (h : k ≠ i) :
    (w.setEntry i c).cache k = w.cache k := by
  simp [World.setEntry, h]

theorem frame_setNext (w : World) (i : Nat) (j : Option Nat) : Frame w (w.setNext i j) := by
  have hfield : ∀ {β : Type} (f : CachedBuffer → β),
      (∀ c : CachedBuffer, f { c with next := j } = f c) →
      ∀ k, f ((w.setNext i j).cache k) = f (w.cache k) := by
    intro β f hf k
    by_cases hk : k = i
    · rw [hk, World.setNext, cache_setEntry_self, hf]
    · rw [World.setNext, cache_setEntry_ne _ _ hk]
  exact ⟨hfield CachedBuffer.layerBuffer fun _ => rfl, hfield CachedBuffer.mappedPtr fun _ => rfl,
    rfl, rfl, rfl, rfl, rfl, rfl⟩

theorem Frame.trans {w₁ w₂ w₃ : World} (h : Frame w₁ w₂) (h' : Frame w₂ w₃) : Frame w₁ w₃ where
  buffers i := (h'.buffers i).trans (h.buffers i)
  pointers i := (h'.pointers i).trans (h.pointers i)
  mappings := h'.mappings.trans h.mappings
  clock := h'.clock.trans h.clock
  used := h'.used.trans h.used
  maps := h'.maps.trans h.maps
  mapNo := h'.mapNo.trans h.mapNo
  lastMap := h'.lastMap.trans h.lastMap

theorem next_setNext (w : World) (i : Nat) (j : Option Nat) :
    (w.setNext i j).next = update w.next i j := by
  funext k
  by_cases hk : k = i
  · rw [hk, World.next, World.setNext, cache_setEntry_self, update_self]
  · rw [World.next, World.setNext, cache_setEntry_ne _ _ hk, update_of_ne hk, World.next]

theorem Listed.swapHead (h : Listed w init t) (hi : i ∈ init ++ [t]) :
    ∃ w', swapHead w i = some w' ∧ Frame w w' ∧ w'.head = i ∧
      Leads w'.next (i :: (init ++ [t]).erase i) none := by
  obtain ⟨as, bs, hsplit, hnotin⟩ := List.eq_append_cons_of_mem hi
  have hnd := h.nodup
  have hleads := h.leads
  have hhead := h.head
  have hfind := h.walkFind fun z => w.next z = some i
  have herase : (init ++ [t]).erase i = as ++ bs := by
    rw [hsplit, List.erase_append_right _ hnotin, List.erase_cons_head]
  rw [herase]
  rw [hsplit] at hnd hleads hhead hfind
  rw [Hwc.swapHead]
  rcases List.eq_nil_or_concat' as with rfl | ⟨as, x, rfl⟩
  · cases hhead
    exact ⟨w, if_pos rfl, .refl w, rfl, hleads⟩
  · rw [List.append_assoc, List.singleton_append] at hnd hleads hhead hfind
    rw [List.append_assoc, List.singleton_append]
    have hne : i ≠ w.head := by
      rintro rfl
      rw [List.nodup_append] at hnd
      cases as with
      | nil =>
        cases hhead
        exact (List.nodup_cons.mp hnd.2.1).1 List.mem_cons_self
      | cons a as =>
        cases hhead
        exact hnd.2.2 _ List.mem_cons_self _ (by simp) rfl
    rw [hleads.find_pred hnd] at hfind
    rw [if_neg hne, hfind]
    refine ⟨_, rfl, ?_, rfl, ?_⟩
    · have hf := (frame_setNext w x (w.next i)).trans (frame_setNext _ i (some w.head))
      exact ⟨hf.buffers, hf.pointers, hf.mappings, hf.clock, hf.used, hf.maps, hf.mapNo,
        hf.lastMap⟩
    · change Leads (((w.setNext x (w.next i)).setNext i (some w.head)).next) _ none
      rw [next_setNext, next_setNext]
      have hix : x ≠ i := by
        rintro rfl
        exact (List.nodup_cons.mp (List.nodup_append.mp hnd).2.1).1 List.mem_cons_self
      refine Leads.to_front hnd ?_ ?_ ?_ hleads
      · rw [update_self, ← hhead]
        cases as <;> rfl
      · rw [update_of_ne hix, update_self]
      · intro z hzx hzi
        rw [update_of_ne hzi, update_of_ne hzx]

end Omap4Hal.Hwc

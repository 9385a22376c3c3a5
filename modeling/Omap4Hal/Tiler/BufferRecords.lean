import Omap4Hal.Lib.Lockstep
import Omap4Hal.Tiler.DoubleLists
import Omap4Hal.Tiler.MemMgr

/- The records of `memmgr.c` in memory: `buf_cache_add`, `buf_cache_query` and `buf_cache_del` on
   the circle that starts at `bufs`. Where the memory represents a list of records, they do what the
   functions of the same names in `MemMgr` do to the list, in every run (`cache_follows`). -/
namespace Omap4Hal.Tiler.BufferRecords

open Lib DoubleLists
open Function (update update_of_ne update_self)

/-! ## The code -/

/-- A record and the list info in it have one address. `me` is not null in the infos of records,
and null in the header; a record that is not allocated is `none`. -/
structure Cache where
  bufs : Nat
  links : Links Nat
  me : Nat → Option Nat
  record : Nat → Option AllocData

/-- `BUF_ALLOCED` and `BUF_MAPPED` -/
def code : BufType → BitVec 32
  | .alloced => 1#32
  | .mapped => 2#32

/-- `buf_cache_add`, where `granted` is the record that `NEW` returns. -/
def bufCacheAdd (c : Cache) (ad : AllocData) (granted : Option Nat) : Int × Cache :=
  match granted with
  | none => (-enomem, c)
  | some a =>
    (0,
      { c with
        links := maddBefore c.links c.bufs a
        me := update c.me a (some a)
        record := update c.record a (some ad) })

/-- `DLIST_MLOOP`, from a list info on, until a record satisfies the condition. It goes on for ever
in a circle without the header, where the fuel runs out. -/
def mloop (c : Cache) (p : AllocData → Bool) : Nat → Nat → Option (Option (Nat × AllocData))
  | 0, _ => none
  | fuel + 1, info =>
    match c.me info with
    | none => some none
    | some a =>
      (c.record a).bind fun ad =>
        if p ad then some (some (a, ad)) else mloop c p fuel (c.links.next a)

/-- What `buf_cache_query` looks for. -/
def matchesPtr (ptr : UInt32) (mask : BitVec 32) (ad : AllocData) : Bool :=
  code ad.bufType &&& mask ≠ 0#32 && ad.covers ptr

/-- `buf_cache_query`: the id, and what is written to `*bufPtr`. -/
def bufCacheQuery (c : Cache) (fuel : Nat) (ptr : UInt32) (mask : BitVec 32) :
    Option (UInt32 × Option UInt32) :=
  (mloop c (matchesPtr ptr mask) fuel (c.links.next c.bufs)).map fun
    | none => (0, none)
    | some (_, ad) => (ad.tilerId, some ad.bufPtr)

def bufCacheDel (c : Cache) (fuel : Nat) (bufPtr : UInt32) (ty : BufType) :
    Option (UInt32 × Cache) :=
  (mloop c (·.named bufPtr ty) fuel (c.links.next c.bufs)).map fun
    | none => (0, c)
    | some (a, ad) =>
      (ad.tilerId,
        { c with links := remove c.links a, record := update c.record a none })

/-! ## What the memory represents -/

/-- The cells are in the circle in this order, each with its record. -/
structure Cache.Holds (c : Cache) (cells : List (Nat × AllocData)) : Prop where
  circular : Circular c.links c.bufs (cells.map (·.1))
  header : c.me c.bufs = none
  me : ∀ x ∈ cells, c.me x.1 = some x.1
  record : ∀ x ∈ cells, c.record x.1 = some x.2

def Cache.Represents (c : Cache) (recs : List AllocData) : Prop :=
  ∃ cells, c.Holds cells ∧ cells.map (·.2) = recs

section Loops
variable {c : Cache} {p : AllocData → Bool} {cells : List (Nat × AllocData)}

theorem mloop_eq {start : Nat} (hpath : Path c.links start (cells.map (·.1)) c.bufs)
    (hheader : c.me c.bufs = none) (hme : ∀ x ∈ cells, c.me x.1 = some x.1)
    (hrecord : ∀ x ∈ cells, c.record x.1 = some x.2) {fuel : Nat} (hfuel : cells.length < fuel) :
    mloop c p fuel (c.links.next start) = some (cells.find? (p ·.2)) := by
  induction cells generalizing start fuel with
  | nil =>
    obtain ⟨fuel, rfl⟩ := Nat.exists_eq_add_of_lt hfuel
    rw [mloop, hpath.1, hheader]
    rfl
  | cons x cells ih =>
    obtain ⟨fuel, rfl⟩ := Nat.exists_eq_add_of_lt hfuel
    obtain ⟨hnext, -, hrest⟩ := hpath
    rw [mloop, hnext, hme x List.mem_cons_self]
    simp only [hrecord x List.mem_cons_self, Option.bind_some]
    cases hp : p x.2 with
    | true =>
      rw [if_pos rfl, List.find?_cons, hp]
    | false =>
      rw [if_neg (by simp), List.find?_cons, hp]
      exact ih hrest (fun y hy => hme y (List.mem_cons_of_mem _ hy))
        (fun y hy => hrecord y (List.mem_cons_of_mem _ hy)) (by simp; omega)

theorem Cache.Holds.mloop (h : c.Holds cells) {fuel : Nat} (hfuel : cells.length < fuel) :
    mloop c p fuel (c.links.next c.bufs) = some (cells.find? (p ·.2)) :=
  mloop_eq h.circular.path h.header h.me h.record hfuel

theorem Cache.Holds.append (h : c.Holds cells) {a : Nat} (ha : c.record a = none)
    (hbufs : a ≠ c.bufs) (ad : AllocData) :
    (bufCacheAdd c ad (some a)).2.Holds (cells ++ [(a, ad)]) := by
  have hfresh : ∀ x ∈ cells, x.1 ≠ a := by
    rintro x hx rfl
    have hrec := h.record x hx
    rw [ha] at hrec
    cases hrec
  have hnotMem : a ∉ c.bufs :: cells.map (·.1) := by
    rw [List.mem_cons, List.mem_map]
    rintro (heq | ⟨x, hx, heq⟩)
    · exact hbufs heq
    · exact hfresh x hx heq
  refine ⟨?_, ?_, ?_, ?_⟩
  · have hadded := circular_maddBefore h.circular List.mem_cons_self hnotMem
    rw [insertBefore, if_pos rfl] at hadded
    rw [List.map_append]
    exact hadded
  · exact (update_of_ne hbufs.symm ..).trans h.header
  · intro x hx
    rcases List.mem_append.mp hx with hx | hx
    · exact (update_of_ne (hfresh x hx) ..).trans (h.me x hx)
    · obtain rfl := List.mem_singleton.mp hx
      exact update_self ..
  · intro x hx
    rcases List.mem_append.mp hx with hx | hx
    · exact (update_of_ne (hfresh x hx) ..).trans (h.record x hx)
    · obtain rfl := List.mem_singleton.mp hx
      exact update_self ..

theorem Cache.Holds.takeOut {as bs : List (Nat × AllocData)} {x : Nat × AllocData}
    (h : c.Holds (as ++ x :: bs)) :
    ({ c with links := remove c.links x.1, record := update c.record x.1 none } :
      Cache).Holds (as ++ bs) := by
  have hcircular := h.circular
  rw [List.map_append, List.map_cons] at hcircular
  obtain ⟨-, has, hbs⟩ := others hcircular.nodup
  have hmem : ∀ y ∈ as ++ bs, y ∈ as ++ x :: bs ∧ y.1 ≠ x.1 := by
    intro y hy
    rcases List.mem_append.mp hy with hy | hy
    · exact ⟨List.mem_append_left _ hy, has _ (List.mem_map_of_mem hy)⟩
    · exact ⟨List.mem_append_right _ (List.mem_cons_of_mem _ hy), hbs _ (List.mem_map_of_mem hy)⟩
  refine ⟨?_, h.header, ?_, ?_⟩
  · have hremoved := circular_remove hcircular (x := x.1) (by simp)
    rwa [List.erase_append_right _ fun hin => has _ hin rfl, List.erase_cons_head,
      ← List.map_append] at hremoved
  · exact fun y hy => h.me y (hmem y hy).1
  · intro y hy
    exact (update_of_ne (hmem y hy).2 ..).trans (h.record y (hmem y hy).1)

end Loops

/-! ## The functions on the list of records -/

/-- What the three functions do where the memory represents these records. -/
structure ActsOn (c : Cache) (recs : List AllocData) : Prop where
  refused : ∀ ad, bufCacheAdd c ad none = (-enomem, c)
  add : ∀ ad a, c.record a = none → a ≠ c.bufs →
    (bufCacheAdd c ad (some a)).1 = 0 ∧ (bufCacheAdd c ad (some a)).2.Represents (recs ++ [ad])
  query : ∀ fuel ptr mask, recs.length < fuel → bufCacheQuery c fuel ptr mask =
    some (match recs.find? (matchesPtr ptr mask) with
      | none => (0, none)
      | some ad => (ad.tilerId, some ad.bufPtr))
  del : ∀ fuel bufPtr ty, recs.length < fuel → ∃ c', bufCacheDel c fuel bufPtr ty =
      some ((recs.find? (·.named bufPtr ty)).elim 0 (·.tilerId), c') ∧
    c'.Represents (recs.eraseP (·.named bufPtr ty))

theorem find?_values (p : AllocData → Bool) (cells : List (Nat × AllocData)) :
    (cells.map (·.2)).find? p = (cells.find? (p ·.2)).map (·.2) := by
  rw [List.find?_map]
  rfl

theorem eraseP_values (p : AllocData → Bool) (cells : List (Nat × AllocData)) :
    (cells.map (·.2)).eraseP p = (cells.eraseP (p ·.2)).map (·.2) := by
  rw [List.eraseP_map]
  rfl

variable {c : Cache}

theorem Cache.Holds.query {cells : List (Nat × AllocData)} (h : c.Holds cells) {fuel : Nat}
    (hfuel : cells.length < fuel) (ptr : UInt32) (mask : BitVec 32) :
    bufCacheQuery c fuel ptr mask =
      some (match (cells.map (·.2)).find? (matchesPtr ptr mask) with
        | none => (0, none)
        | some ad => (ad.tilerId, some ad.bufPtr)) := by
  rw [bufCacheQuery, h.mloop hfuel, find?_values]
  cases cells.find? (matchesPtr ptr mask ·.2) <;> rfl

theorem Cache.Holds.del {cells : List (Nat × AllocData)} (h : c.Holds cells) {fuel : Nat}
    (hfuel : cells.length < fuel) (bufPtr : UInt32) (ty : BufType) :
    ∃ c', bufCacheDel c fuel bufPtr ty =
        some (((cells.map (·.2)).find? (·.named bufPtr ty)).elim 0 (·.tilerId), c') ∧
      c'.Represents ((cells.map (·.2)).eraseP (·.named bufPtr ty)) := by
  rw [bufCacheDel, h.mloop hfuel, find?_values, eraseP_values]
  cases hfind : cells.find? (·.2.named bufPtr ty) with
  | none =>
    refine ⟨c, rfl, cells, h, ?_⟩
    rw [List.eraseP_of_forall_not (List.find?_eq_none.mp hfind)]
  | some x =>
    obtain ⟨hx, as, bs, rfl, has⟩ := List.find?_eq_some_iff_append.mp hfind
    refine ⟨_, rfl, as ++ bs, h.takeOut, ?_⟩
    rw [List.eraseP_append_right (x :: bs) fun y hy => by simpa using has y hy, List.eraseP_cons,
      hx]
    rfl

theorem Cache.Represents.actsOn {recs : List AllocData} (h : c.Represents recs) :
    ActsOn c recs := by
  obtain ⟨cells, hcells, rfl⟩ := h
  refine ⟨fun _ => rfl, ?_, ?_, ?_⟩
  · intro ad a ha hbufs
    exact ⟨rfl, _, hcells.append ha hbufs ad, by simp⟩
  · intro fuel ptr mask hfuel
    exact hcells.query (by simpa using hfuel) ptr mask
  · intro fuel bufPtr ty hfuel
    exact hcells.del (by simpa using hfuel) bufPtr ty

/-! ## The list in `MemMgr` -/

/-- The memory represents the list of the state. -/
def Simulates (c : Cache) (s : MemMgr) : Prop :=
  ∃ recs, s.bufs = some recs ∧ c.Represents recs

/-- The three functions. `granted` is what `NEW` returns. -/
inductive CacheCall where
  | add (ad : AllocData) (granted : Option Nat)
  | query (ptr : UInt32)
  | del (bufPtr : UInt32) (ty : BufType)

/-- A call on the memory: what is returned, and written to `*bufPtr` (or 0). -/
def cacheStep (fuel : Nat) (c : Cache) : CacheCall → Option ((Int × UInt32) × Cache)
  | .add ad granted => some (((bufCacheAdd c ad granted).1, 0), (bufCacheAdd c ad granted).2)
  | .query ptr => (bufCacheQuery c fuel ptr (code .alloced ||| code .mapped)).map fun r =>
      ((r.1.toNat, r.2.getD 0), c)
  | .del bufPtr ty => (bufCacheDel c fuel bufPtr ty).map fun r => ((r.1.toNat, 0), r.2)

def listStep (s : MemMgr) : CacheCall → Option ((Int × UInt32) × MemMgr)
  | .add ad granted => (Tiler.bufCacheAdd s ad granted.isSome).map fun r => ((r.1, 0), r.2)
  | .query ptr => (Tiler.bufCacheQuery s ptr).map fun r => ((r.1.toNat, r.2), s)
  | .del bufPtr ty => (Tiler.bufCacheDel s bufPtr ty).map fun r => ((r.1.toNat, 0), r.2)

/-- `NEW` returns a record that is not allocated. -/
def Grants (c : Cache) : CacheCall → Prop
  | .add _ (some a) => c.record a = none ∧ a ≠ c.bufs
  | _ => True

theorem matchesPtr_any (ptr : UInt32) :
    matchesPtr ptr (code .alloced ||| code .mapped) = (·.covers ptr) := by
  funext ad
  cases hty : ad.bufType <;> simp [matchesPtr, code, hty]

theorem Simulates.step {s : MemMgr} (h : Simulates c s) {fuel : Nat}
    (hfuel : s.records.length < fuel) {call : CacheCall} (hcall : Grants c call) :
    ∃ x c' s', cacheStep fuel c call = some (x, c') ∧ listStep s call = some (x, s') ∧
      Simulates c' s' ∧ s'.records.length ≤ s.records.length + 1 := by
  obtain ⟨recs, hs, hrecs⟩ := h
  have hacts := hrecs.actsOn
  have hlen : s.records = recs := by
    rw [MemMgr.records, hs]
    rfl
  rw [hlen] at hfuel ⊢
  have hsame : s.records.length ≤ recs.length + 1 := hlen ▸ Nat.le_succ _
  cases call with
  | add ad granted =>
    cases granted with
    | none => exact ⟨_, c, s, rfl, rfl, ⟨recs, hs, hrecs⟩, hsame⟩
    | some a =>
      refine ⟨_, _, { s with bufs := some (recs ++ [ad]) }, rfl, ?_,
        ⟨_, rfl, (hacts.add ad a hcall.1 hcall.2).2⟩, by simp [MemMgr.records]⟩
      rw [listStep, Option.isSome_some, Tiler.bufCacheAdd, if_pos rfl, hs]
      rfl
  | query ptr =>
    refine ⟨_, c, s, by rw [cacheStep, hacts.query fuel _ _ hfuel]; rfl, ?_, ⟨recs, hs, hrecs⟩,
      hsame⟩
    rw [listStep, Tiler.bufCacheQuery, hs, matchesPtr_any]
    cases hfind : recs.find? (·.covers ptr) <;> simp [hfind]
  | del bufPtr ty =>
    obtain ⟨c', hdel, hrecs'⟩ := hacts.del fuel bufPtr ty hfuel
    have hlist : (recs.eraseP (·.named bufPtr ty)).length ≤ recs.length + 1 :=
      Nat.le_succ_of_le List.eraseP_sublist.length_le
    cases hfind : recs.find? (·.named bufPtr ty) with
    | none =>
      rw [hfind] at hdel
      rw [List.eraseP_of_forall_not (List.find?_eq_none.mp hfind)] at hrecs'
      refine ⟨_, c', s, by rw [cacheStep, hdel]; rfl, ?_, ⟨recs, hs, hrecs'⟩,
        hsame⟩
      rw [listStep, Tiler.bufCacheDel, hs, Option.map_some, hfind]
      rfl
    | some ad =>
      rw [hfind] at hdel
      refine ⟨_, c', { s with bufs := some (recs.eraseP (·.named bufPtr ty)) },
        by rw [cacheStep, hdel]; rfl, ?_, ⟨_, rfl, hrecs'⟩, hlist⟩
      rw [listStep, Tiler.bufCacheDel, hs, Option.map_some, hfind]
      rfl

/-- In every run the memory and the list answer alike, and the memory represents the list. -/
theorem cache_follows (fuel : Nat) (calls : List CacheCall) (c : Cache) (s : MemMgr)
    (h : Simulates c s) (hfuel : s.records.length + calls.length ≤ fuel)
    (hG : Guarded (fun c a => (cacheStep fuel c a).map (·.2)) Grants c calls) :
    Lockstep Simulates (cacheStep fuel) listStep c s calls := by
  induction calls generalizing c s with
  | nil => exact h
  | cons call calls ih =>
    rw [List.length_cons] at hfuel
    obtain ⟨x, c', s', hc, hs, h', hle⟩ := h.step (show _ < fuel by omega) hG.1
    rw [Lockstep, hc, hs]
    exact ⟨h, rfl, ih c' s' h' (by omega) (hG.2 c' (by simp only [hc, Option.map_some]))⟩

theorem cache_follows_four : Lockstep Simulates (cacheStep 4) listStep
    ⟨0, ⟨id, id⟩, fun _ => none, fun _ => none⟩ (init MemMgr.initial)
    [.add ⟨0x1000, 0x1000, 7, .alloced⟩ (some 1), .query 0x1800, .del 0x1000 .alloced,
      .del 0x1000 .alloced] := by
  refine cache_follows 4 _ _ _ ⟨[], rfl, [], ⟨⟨⟨rfl, rfl⟩, List.nodup_singleton 0⟩, rfl, ?_, ?_⟩,
    rfl⟩ (Nat.le_refl 4) ?_
  · simp
  · simp
  · simp [Guarded, Grants]

/-! ## Macros and functions -/

/-- The macros are right except of a node that is moved relative to itself, and the functions, which
move none, are right. -/
theorem lists_iff {α : Type} [DecidableEq α] (m : Links α) (head : α) (xs : List α)
    (h : Circular m head xs) (call : DoubleLists.Call α) (hlegal : Legal head xs call) (c : Cache)
    (recs : List AllocData) (hc : c.Represents recs) :
    (Circular (exec m call) head (apply head xs call) ∧ ActsOn c recs) ↔ ¬ MovesToSelf call :=
  (and_iff_left hc.actsOn).trans (circular_exec_iff h hlegal)

/-- A header and `n` nodes behind it. -/
def ring (n : Nat) : Links Nat := ⟨fun y => (y + 1) % (n + 1), fun y => (y + n) % (n + 1)⟩

def twoRecords : List AllocData := [⟨0x1000, 0x1000, 7, .alloced⟩, ⟨0x3000, 0x1000, 8, .mapped⟩]

/-- Of three nodes, the first one is moved behind the last one; the cache has two records. -/
theorem lists_moved :
    Circular (exec (ring 3) (.moveAfter 3 1)) 0 [2, 3, 1] ∧
      ActsOn ⟨0, ring 2, fun y => if y = 0 then none else some y,
        fun y => if y = 0 then none else twoRecords[y - 1]?⟩ twoRecords := by
  refine (lists_iff (ring 3) 0 [1, 2, 3] ⟨⟨rfl, rfl, rfl, rfl, rfl, rfl, rfl, rfl⟩, by decide⟩
    (.moveAfter 3 1) ⟨by decide, by decide⟩ _ twoRecords ⟨[1, 2].zip twoRecords, ?_, rfl⟩).mpr ?_
  · exact ⟨⟨⟨rfl, rfl, rfl, rfl, rfl, rfl⟩, by decide⟩, rfl, by decide, by decide⟩
  · exact (by decide : (3 : Nat) ≠ 1)

/-- The only node of a list, moved after itself, is no longer behind the header. -/
theorem moved_after_itself :
    Circular (⟨fun y => 1 - y, fun y => 1 - y⟩ : Links Nat) 0 [1] ∧
      ¬ Circular (exec (⟨fun y => 1 - y, fun y => 1 - y⟩ : Links Nat) (.moveAfter 1 1)) 0 [1] := by
  refine ⟨⟨⟨rfl, rfl, rfl, rfl⟩, by decide⟩, ?_⟩
  intro h
  exact absurd h.path.1 (by decide)

end Omap4Hal.Tiler.BufferRecords

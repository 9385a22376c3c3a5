import Mathlib.Data.List.Range
import Mathlib.Data.List.Perm.Subperm
import Omap4Hal.Elfload.TargetMemory
import Omap4Hal.Lib.LinkedList
import Omap4Hal.Lib.Tiling

/- The list of packets of the target memory allocator. `Laid` is what it should be: linked both
   ways, a tiling of the pool, no two free packets side by side. The loops over such a list find
   what they look for; a packet that is freed leaves such a list; and so does an allocation that
   takes a whole packet, or the beginning of the last one. -/
namespace Omap4Hal.Elfload

open Lib
open Function (update_of_ne)
open TrgMem
open List (append_assoc getLast?_concat head?_cons map_append map_cons mem_append mem_cons_of_mem
  mem_cons_self mem_singleton)
open Option (bind_eq_bind bind_some)

/-! ## The list -/

/-- What is at a packet's address. -/
def TrgMem.pkt (m : TrgMem) (p : Nat) : Packet := (m.packets p).getD ⟨0, 0, none, none, false⟩

def TrgMem.next (m : TrgMem) (p : Nat) : Option Nat := (m.pkt p).nextPacket

def TrgMem.prev (m : TrgMem) (p : Nat) : Option Nat := (m.pkt p).prevPacket

def TrgMem.block (m : TrgMem) (p : Nat) : Block :=
  ⟨(m.pkt p).packetAddr, (m.pkt p).packetSize, (m.pkt p).usedPacket⟩

/-- The packets `ps` are linked both ways and tile the pool in order, and no two free ones stand
side by side. -/
structure Strung (base limit : Nat) (m : TrgMem) (ps : List Nat) : Prop where
  nodup : ps.Nodup
  held : ∀ p ∈ ps, m.packets p = some (m.pkt p)
  old : ∀ p ∈ ps, p < m.fresh
  linked : Linked m.next m.prev none ps none
  tiles : Tiles base (ps.map m.block) limit
  merged : Merged (ps.map m.block)
  positive : ∀ p ∈ ps, (m.block p).used = true → 0 < (m.block p).size

/-- The packets from the head on are `ps`. -/
structure Laid (base limit : Nat) (m : TrgMem) (ps : List Nat) : Prop
    extends Strung base limit m ps where
  head : m.trgMemHead = ps.head?

section Access

variable (m : TrgMem) (p q : Nat) (x : Packet)

@[simp] theorem pkt_set_self : (m.set p x).pkt p = x := by
  simp [TrgMem.pkt, TrgMem.set]

theorem pkt_set_of_ne {p q : Nat} (h : q ≠ p) : (m.set p x).pkt q = m.pkt q := by
  simp [TrgMem.pkt, TrgMem.set, update_of_ne h]

@[simp] theorem pkt_add_self : (m.add x).pkt m.fresh = x := by
  simp [TrgMem.pkt, add, TrgMem.set]

theorem pkt_add_of_ne {q : Nat} (h : q ≠ m.fresh) : (m.add x).pkt q = m.pkt q := by
  simp [TrgMem.pkt, add, TrgMem.set, update_of_ne h]

theorem pkt_of_packets {m : TrgMem} {p : Nat} {x : Packet} (h : m.packets p = some x) :
    m.pkt p = x := by
  simp [TrgMem.pkt, h]

end Access

/-! ## The loops -/

theorem Strung.length_le {base limit : Nat} {m : TrgMem} {ps : List Nat}
    (h : Strung base limit m ps) :
    ps.length ≤ m.fresh := by
  have hsub : ps ⊆ List.range m.fresh := by
    intro p hp
    exact List.mem_range.mpr (h.old p hp)
  have hle := (h.nodup.subperm hsub).length_le
  rwa [List.length_range] at hle

theorem linked_uncons {m : TrgMem} {b : Option Nat} {p : Nat} {ps : List Nat}
    (h : Linked m.next m.prev b (p :: ps) none) :
    (m.pkt p).nextPacket = ps.head? ∧ Linked m.next m.prev (some p) ps none := by
  obtain ⟨-, hnext, hrest⟩ := h
  exact ⟨hnext.trans (Option.or_none), hrest⟩

section Loops

variable {m : TrgMem} {ps : List Nat} {b : Option Nat}
  (hheld : ∀ p ∈ ps, m.packets p = some (m.pkt p))
  (hlinked : Linked m.next m.prev b ps none)
include hheld hlinked

theorem bestFit_spec (size alignment : Nat) {k : Nat} (hk : ps.length ≤ k)
    (best : Option (Nat × Nat)) : ∃ r, bestFit m size alignment k ps.head? best = some r ∧
      ((r = best ∧ (best = none → ∀ p ∈ ps, (m.pkt p).fits size alignment = false)) ∨
        ∃ p ∈ ps, r = some (p, (m.pkt p).packetSize) ∧ (m.pkt p).fits size alignment = true) := by
  induction ps generalizing b k best with
  | nil => exact ⟨best, by simp [bestFit], .inl ⟨rfl, fun _ p hp => by cases hp⟩⟩
  | cons p ps ih =>
    obtain ⟨hnext, hrest⟩ := linked_uncons hlinked
    have hheld' : ∀ q ∈ ps, m.packets q = some (m.pkt q) := fun q hq =>
      hheld q (mem_cons_of_mem _ hq)
    obtain ⟨k, rfl⟩ : ∃ j, k = j + 1 := ⟨k - 1, by simp at hk; omega⟩
    simp only [head?_cons, bestFit, hheld p mem_cons_self, bind_eq_bind,
      bind_some]
    rw [hnext]
    have hlen : ps.length ≤ k := by simpa using hk
    split
    · next hbetter =>
      simp only [Bool.and_eq_true] at hbetter
      obtain ⟨r, hr, hcase⟩ := ih hheld' hrest hlen (some (p, (m.pkt p).packetSize))
      refine ⟨r, hr, .inr ?_⟩
      rcases hcase with ⟨rfl, -⟩ | ⟨q, hq, hfound⟩
      · exact ⟨p, mem_cons_self, rfl, hbetter.1⟩
      · exact ⟨q, mem_cons_of_mem _ hq, hfound⟩
    · next hbetter =>
      obtain ⟨r, hr, hcase⟩ := ih hheld' hrest hlen best
      refine ⟨r, hr, ?_⟩
      rcases hcase with ⟨hsame, hnone⟩ | ⟨q, hq, hfound⟩
      · refine .inl ⟨hsame, ?_⟩
        intro hbest q hq
        rcases List.mem_cons.mp hq with rfl | hq
        · simpa [hbest] using hbetter
        · exact hnone hbest q hq
      · exact .inr ⟨q, mem_cons_of_mem _ hq, hfound⟩

theorem findAddr_spec (reqAddr : Nat) {k : Nat} (hk : ps.length ≤ k) :
    ∃ r, findAddr m reqAddr k ps.head? = some r ∧ ∀ p, r = some p → p ∈ ps ∧
      (m.pkt p).packetAddr ≤ reqAddr ∧
        reqAddr < ((m.pkt p).packetAddr + (m.pkt p).packetSize) % 2 ^ 32 := by
  induction ps generalizing b k with
  | nil => exact ⟨none, by simp [findAddr], fun p hp => by cases hp⟩
  | cons p ps ih =>
    obtain ⟨hnext, hrest⟩ := linked_uncons hlinked
    have hheld' : ∀ q ∈ ps, m.packets q = some (m.pkt q) := fun q hq =>
      hheld q (mem_cons_of_mem _ hq)
    obtain ⟨k, rfl⟩ : ∃ j, k = j + 1 := ⟨k - 1, by simp at hk; omega⟩
    simp only [head?_cons, findAddr, hheld p mem_cons_self, bind_eq_bind,
      bind_some]
    split
    · obtain ⟨r, hr, hfound⟩ := ih hheld' hrest (k := k) (by simpa using hk)
      refine ⟨r, by rw [hnext, hr], ?_⟩
      intro q hq
      obtain ⟨hmem, hin⟩ := hfound q hq
      exact ⟨mem_cons_of_mem _ hmem, hin⟩
    · next hin =>
      refine ⟨some p, rfl, ?_⟩
      intro q hq
      cases hq
      exact ⟨mem_cons_self, by omega⟩

theorem findUsed_after (addr : Nat) {k : Nat} (hk : ps.length ≤ k)
    (hafter : ∀ p ∈ ps, (m.block p).used = true → addr < (m.block p).addr) (prev : Option Nat) :
    findUsed m addr k ps.head? prev = some prev := by
  induction ps generalizing b k with
  | nil => simp [findUsed]
  | cons p ps ih =>
    obtain ⟨hnext, hrest⟩ := linked_uncons hlinked
    have hheld' : ∀ q ∈ ps, m.packets q = some (m.pkt q) := fun q hq =>
      hheld q (mem_cons_of_mem _ hq)
    obtain ⟨k, rfl⟩ : ∃ j, k = j + 1 := ⟨k - 1, by simp at hk; omega⟩
    simp only [head?_cons, findUsed, hheld p mem_cons_self, bind_eq_bind,
      bind_some]
    split
    · rw [hnext]
      exact ih hheld' hrest (by simpa using hk) fun q hq => hafter q (mem_cons_of_mem _ hq)
    · next hused =>
      have hused : (m.pkt p).usedPacket = true := by simpa using hused
      have hlt : addr < (m.pkt p).packetAddr := hafter p mem_cons_self hused
      rw [if_neg (by omega)]

end Loops

theorem findUsed_spec {m : TrgMem} {as bs : List Nat} {p : Nat} {b : Option Nat}
    (hheld : ∀ q ∈ as ++ p :: bs, m.packets q = some (m.pkt q))
    (hlinked : Linked m.next m.prev b (as ++ p :: bs) none) {k : Nat}
    (hk : (as ++ p :: bs).length ≤ k) (hused : (m.block p).used = true)
    (hbefore : ∀ q ∈ as, (m.block q).addr ≤ (m.block p).addr)
    (hafter : ∀ q ∈ bs, (m.block q).used = true → (m.block p).addr < (m.block q).addr)
    (prev : Option Nat) :
    findUsed m (m.block p).addr k (as ++ p :: bs).head? prev = some (some p) := by
  induction as generalizing b k prev with
  | nil =>
    obtain ⟨hnext, hrest⟩ := linked_uncons hlinked
    have husedp : (m.pkt p).usedPacket = true := hused
    obtain ⟨k, rfl⟩ : ∃ j, k = j + 1 := ⟨k - 1, by simp at hk; omega⟩
    simp only [List.nil_append, head?_cons, findUsed, hheld p (by simp), bind_eq_bind,
      bind_some, husedp, Bool.true_eq_false, if_false]
    have hle : (m.pkt p).packetAddr ≤ (m.block p).addr := Nat.le_refl _
    rw [if_pos hle, hnext]
    exact findUsed_after (fun q hq => hheld q (by simp [hq])) hrest _ (by simpa using hk) hafter _
  | cons q as ih =>
    obtain ⟨hnext, hrest⟩ := linked_uncons hlinked
    obtain ⟨k, rfl⟩ : ∃ j, k = j + 1 := ⟨k - 1, by simp at hk; omega⟩
    have hstep := fun prev => ih (fun q hq => hheld q (mem_cons_of_mem _ hq)) hrest
      (k := k) (by simpa using hk) (fun q hq => hbefore q (mem_cons_of_mem _ hq)) prev
    have hle : (m.pkt q).packetAddr ≤ (m.block p).addr := hbefore q mem_cons_self
    simp only [List.cons_append, head?_cons, findUsed, hheld q (by simp), bind_eq_bind,
      bind_some]
    rw [hnext]
    split
    · exact hstep prev
    · exact hstep (some q)

/-! ## Changing the list -/

section Change

variable {base limit : Nat} {m m' : TrgMem} {as bs : List Nat} {p : Nat}

theorem Strung.at (h : Strung base limit m (as ++ p :: bs)) :
    (m.pkt p).nextPacket = bs.head? ∧ (m.pkt p).prevPacket = as.getLast? ∧
      p ∉ as ∧ p ∉ bs ∧ (m.block p).addr + (m.block p).size ≤ limit := by
  obtain ⟨hnext, hprev⟩ := h.linked.neighbours
  have hnd := List.nodup_middle.mp h.nodup
  have hout := (List.nodup_cons.mp hnd).1
  simp only [mem_append, not_or] at hout
  exact ⟨hnext, hprev, hout.1, hout.2, (h.tiles.inside (by simp)).2⟩

variable {ps ps' : List Nat} {q alignment size : Nat}

theorem Strung.apart (h : Strung base limit m ps) {p : Nat} (hp : p ∈ ps) (hq : q ∈ ps)
    (hpq : p ≠ q) :
    (m.block p).addr + (m.block p).size ≤ (m.block q).addr ∨
      (m.block q).addr + (m.block q).size ≤ (m.block p).addr := by
  let R : Nat → Nat → Prop := fun p q => (m.block p).addr + (m.block p).size ≤ (m.block q).addr ∨
    (m.block q).addr + (m.block q).size ≤ (m.block p).addr
  have hall : ps.Pairwise R := (List.pairwise_map.mp h.tiles.ordered).imp Or.inl
  have hsymm : Std.Symm R := ⟨fun _ _ => Or.symm⟩
  exact hall.forall hp hq hpq

theorem map_block_congr {qs : List Nat} (h : ∀ q ∈ qs, m'.block q = m.block q) :
    qs.map m'.block = qs.map m.block :=
  List.map_congr_left h

theorem Strung.set_fields (h : Strung base limit m (as ++ p :: bs)) {x : Packet}
    (hnext : x.nextPacket = (m.pkt p).nextPacket) (hprev : x.prevPacket = (m.pkt p).prevPacket)
    (haddr : x.packetAddr = (m.pkt p).packetAddr) (hsize : x.packetSize = (m.pkt p).packetSize)
    (hbefore : ∀ q ∈ as.getLast?, (m.block q).used = true ∨ x.usedPacket = true)
    (hbehind : ∀ q ∈ bs.head?, x.usedPacket = true ∨ (m.block q).used = true)
    (hpos : x.usedPacket = true → 0 < x.packetSize) :
    Strung base limit (m.set p x) (as ++ p :: bs) := by
  obtain ⟨-, -, hpas, hpbs, -⟩ := h.at
  have hblock : ∀ q, q ≠ p → (m.set p x).block q = m.block q := by
    intro q hq
    simp only [TrgMem.block, pkt_set_of_ne m x hq]
  have has : as.map (m.set p x).block = as.map m.block := map_block_congr fun q hq =>
    hblock q fun heq => hpas (heq ▸ hq)
  have hbs : bs.map (m.set p x).block = bs.map m.block := map_block_congr fun q hq =>
    hblock q fun heq => hpbs (heq ▸ hq)
  have htiles := h.tiles
  have hmerged := h.merged
  rw [map_append, map_cons, tiles_append_cons] at htiles
  rw [map_append, map_cons, merged_append_cons] at hmerged
  refine ⟨h.nodup, ?_, h.old, ?_, ?_, ?_, ?_⟩
  · intro q hq
    by_cases hqp : q = p
    · rw [hqp, pkt_set_self]
      simp [TrgMem.set]
    · rw [pkt_set_of_ne m x hqp, ← h.held q hq]
      simp [TrgMem.set, update_of_ne hqp]
  · apply h.linked.congr
    · intro q _
      by_cases hqp : q = p
      · rw [TrgMem.next, TrgMem.next, hqp, pkt_set_self, hnext]
      · rw [TrgMem.next, TrgMem.next, pkt_set_of_ne m x hqp]
    · intro q _
      by_cases hqp : q = p
      · rw [TrgMem.prev, TrgMem.prev, hqp, pkt_set_self, hprev]
      · rw [TrgMem.prev, TrgMem.prev, pkt_set_of_ne m x hqp]
  · rw [map_append, map_cons, tiles_append_cons, has, hbs]
    have haddr' : ((m.set p x).block p).addr = (m.block p).addr := by
      simp [TrgMem.block, haddr]
    have hsize' : ((m.set p x).block p).size = (m.block p).size := by
      simp [TrgMem.block, hsize]
    rw [haddr', hsize']
    exact htiles
  · rw [map_append, map_cons, merged_append_cons, has, hbs]
    have hused : ((m.set p x).block p).used = x.usedPacket := by simp [TrgMem.block]
    rw [hused]
    refine ⟨hmerged.1, hmerged.2.1, ?_, ?_⟩
    · intro c hc
      rw [List.getLast?_map] at hc
      obtain ⟨q, hq, rfl⟩ := Option.map_eq_some_iff.mp hc
      exact hbefore q hq
    · intro c hc
      rw [List.head?_map] at hc
      obtain ⟨q, hq, rfl⟩ := Option.map_eq_some_iff.mp hc
      exact hbehind q hq
  · intro q hq hused
    by_cases hqp : q = p
    · subst hqp
      simp only [TrgMem.block, pkt_set_self] at hused ⊢
      exact hpos hused
    · rw [hblock q hqp] at hused ⊢
      exact h.positive q hq hused

/-- Only `p` and, if there is one, the packet `o` get new fields, and `q` is freed. -/
theorem patched {o : Option Nat} (hpq : p ≠ q) (x : Packet) (f : Packet → Packet)
    (hheld : ∀ c ∈ o, m.packets c = some (m.pkt c) ∧ c ≠ p) :
    ∃ m', (match o with
        | none => some ((m.set p x).release q)
        | some c => ((m.set p x).packets c).bind fun pkt =>
            some (((m.set p x).set c (f pkt)).release q)) = some m' ∧
      m'.fresh = m.fresh ∧ m'.trgMemHead = m.trgMemHead ∧ m'.packets p = some x ∧
      ∀ c, c ≠ p → c ≠ q →
        m'.packets c = if o = some c then some (f (m.pkt c)) else m.packets c := by
  cases o with
  | none =>
    refine ⟨_, rfl, rfl, rfl, ?_, ?_⟩
    · simp [release, TrgMem.set, update_of_ne hpq]
    · intro c hcp hcq
      simp [release, TrgMem.set, update_of_ne hcq, update_of_ne hcp]
  | some o =>
    obtain ⟨hoheld, hop⟩ := hheld o rfl
    simp only [TrgMem.set, update_of_ne hop, hoheld, bind_some]
    refine ⟨_, rfl, rfl, rfl, ?_, ?_⟩
    · simp [release, update_of_ne hpq, update_of_ne (Ne.symm hop)]
    · intro c hcp hcq
      by_cases hco : c = o
      · simp [release, hco, update_of_ne (hco ▸ hcq)]
      · simp [release, update_of_ne hcq, update_of_ne hco, update_of_ne hcp, Ne.symm hco]

/-- What a merge leaves as it was: the head, the packets that are still in the list, and what is
in use. -/
structure MergeKeeps (m m' : TrgMem) (p : Nat) (ps ps' : List Nat) : Prop where
  head : m'.trgMemHead = m.trgMemHead
  used : (m'.block p).used = true
  sub : ∀ q ∈ ps', q ∈ ps
  block : ∀ q ∈ ps', q ≠ p → m'.block q = m.block q
  gone : ∀ q ∈ ps, q ∉ ps' → (m.block q).used = false

theorem MergeKeeps.refl (h : (m.block p).used = true) : MergeKeeps m m p ps ps :=
  ⟨rfl, h, fun _ hq => hq, fun _ _ _ => rfl, fun _ hq hout => absurd hq hout⟩

theorem MergeKeeps.used_iff (h : MergeKeeps m m' p ps ps') (hqp : q ≠ p) {b : Block}
    (hb : b.used = true) :
    (q ∈ ps' ∧ m'.block q = b) ↔ q ∈ ps ∧ m.block q = b := by
  constructor
  · rintro ⟨hq, hblock⟩
    exact ⟨h.sub q hq, by rw [← h.block q hq hqp, hblock]⟩
  · rintro ⟨hq, hblock⟩
    have hin : q ∈ ps' := by
      by_contra hout
      have hfree := h.gone q hq hout
      rw [hblock, hb] at hfree
      cases hfree
    exact ⟨hin, by rw [h.block q hin hqp, hblock]⟩

/-- Of two packets side by side, `p` takes in the free `q`. Their neighbours point to `p`
afterwards, as one of them did before. -/
theorem Strung.merge {a b : Nat} (hpool : limit < base + 2 ^ 32)
    (h : Strung base limit m (as ++ a :: b :: bs)) (hpq : p = a ∧ q = b ∨ p = b ∧ q = a)
    (hused : (m.block p).used = true) (hfree : (m.block q).used = false)
    (hfresh : m'.fresh = m.fresh) (hhead : m'.trgMemHead = m.trgMemHead)
    (hself : m'.packets p = some ⟨(m.pkt a).packetAddr,
      ((m.pkt p).packetSize + (m.pkt q).packetSize) % 2 ^ 32, as.getLast?, bs.head?,
      (m.pkt p).usedPacket⟩)
    (hothers : ∀ c ∈ as ++ bs, m'.packets c = some { m.pkt c with
      nextPacket := if as.getLast? = some c then some p else m.next c
      prevPacket := if bs.head? = some c then some p else m.prev c }) :
    Strung base limit m' (as ++ p :: bs) ∧
      MergeKeeps m m' p (as ++ a :: b :: bs) (as ++ p :: bs) := by
  have hnd := h.nodup
  have hab : a ≠ b ∧ a ∉ as ++ bs ∧ b ∉ as ++ bs := by grind
  have hp : p ∈ as ++ a :: b :: bs := by grind
  have hsub : ∀ c ∈ as ++ p :: bs, c ∈ as ++ a :: b :: bs := by grind
  have hrest : ∀ c ∈ as ++ p :: bs, c ≠ p → c ∈ as ++ bs := by grind
  have hnodup : (as ++ p :: bs).Nodup := by grind
  have hpkt := pkt_of_packets hself
  have hpkts := fun c hc => pkt_of_packets (hothers c hc)
  have hblock : ∀ c ∈ as ++ bs, m'.block c = m.block c := by
    intro c hc
    simp only [TrgMem.block, hpkts c hc]
  have hmaps : as.map m'.block = as.map m.block ∧ bs.map m'.block = bs.map m.block :=
    ⟨map_block_congr fun c hc => hblock c (List.mem_append_left _ hc),
      map_block_congr fun c hc => hblock c (List.mem_append_right _ hc)⟩
  have htiles := h.tiles
  have hmerged := h.merged
  rw [map_append, map_cons, tiles_append_cons, map_cons] at htiles
  rw [map_append, map_cons, merged_append_cons, map_cons] at hmerged
  obtain ⟨htas, haddr, htbs⟩ := htiles
  have hbounds := (h.tiles.inside (b := m.block a) (by simp)).1
  have hend := htbs.le
  have hsizes : (m.block p).size + (m.block q).size = (m.block a).size + (m.block b).size := by
    rcases hpq with ⟨rfl, rfl⟩ | ⟨rfl, rfl⟩
    · rfl
    · exact Nat.add_comm _ _
  have hblockp : m'.block p =
      ⟨(m.block a).addr, (m.block a).size + (m.block b).size, true⟩ := by
    have hsum : ((m.pkt p).packetSize + (m.pkt q).packetSize) % 2 ^ 32 =
        (m.block p).size + (m.block q).size := Nat.mod_eq_of_lt (by
          show (m.block p).size + (m.block q).size < 2 ^ 32
          omega)
    have hpused : (m.pkt p).usedPacket = true := hused
    rw [← hsizes, ← hsum]
    simp only [TrgMem.block, hpkt, hpused]
  refine ⟨⟨hnodup, ?_, ?_, ?_, ?_, ?_, ?_⟩, hhead, by rw [hblockp], hsub,
    fun c hc hcp => hblock c (hrest c hc hcp), ?_⟩
  · intro c hc
    by_cases hcp : c = p
    · rw [hcp, hself, hpkt]
    · rw [hothers c (hrest c hc hcp), hpkts c (hrest c hc hcp)]
  · intro c hc
    rw [hfresh]
    exact h.old c (hsub c hc)
  · obtain ⟨hleft, -, -, -, -, hright⟩ := linked_append.mp h.linked
    apply Linked.insert hleft hright hnodup
    · rw [TrgMem.next, hpkt]
    · rw [TrgMem.prev, hpkt]
    · intro c hc
      rw [TrgMem.next, hpkts c hc]
    · intro c hc
      rw [TrgMem.prev, hpkts c hc]
  · rw [map_append, map_cons, tiles_append_cons, hmaps.1, hmaps.2, hblockp]
    refine ⟨htas, ?_⟩
    rw [← Nat.add_assoc]
    exact htbs
  · rw [map_append, map_cons, merged_append_cons, hmaps.1, hmaps.2, hblockp]
    exact ⟨hmerged.1, hmerged.2.1.tail, fun c _ => .inr rfl, fun c _ => .inl rfl⟩
  · intro c hc hcused
    by_cases hcp : c = p
    · rw [hcp, hblockp]
      have hpos := h.positive p hp hused
      show 0 < (m.block a).size + (m.block b).size
      omega
    · rw [hblock c (hrest c hc hcp)] at hcused ⊢
      exact h.positive c (hsub c hc) hcused
  · intro c hc hout
    obtain rfl : c = q := by grind
    exact hfree

theorem Strung.used_beside (h : Strung base limit m (as ++ q :: bs))
    (hfree : (m.block q).used = false) :
    (∀ c ∈ as.getLast?, (m.block c).used = true) ∧ ∀ c ∈ bs.head?, (m.block c).used = true := by
  have hmerged := h.merged
  rw [map_append, map_cons, merged_append_cons] at hmerged
  obtain ⟨-, -, hleft, hright⟩ := hmerged
  refine ⟨?_, ?_⟩
  · intro c hc
    have hpair := hleft (m.block c) (by
      rw [List.getLast?_map]
      exact Option.mem_map_of_mem m.block hc)
    simpa [hfree] using hpair
  · intro c hc
    have hpair := hright (m.block c) (by
      rw [List.head?_map]
      exact Option.mem_map_of_mem m.block hc)
    simpa [hfree] using hpair

/-- The packet behind `p` points back to it, the one before it forward. -/
theorem Strung.beside (h : Strung base limit m (as ++ p :: bs)) :
    (∀ c ∈ as.getLast?, m.next c = some p) ∧ ∀ c ∈ bs.head?, m.prev c = some p := by
  refine ⟨?_, ?_⟩
  · intro c hc
    obtain ⟨cs, rfl⟩ := List.getLast?_eq_some_iff.mp hc
    rw [append_assoc] at h
    exact h.at.1
  · intro c hc
    obtain ⟨ds, rfl⟩ := List.head?_eq_some_iff.mp hc
    rw [List.append_cons] at h
    exact h.at.2.1.trans (by simp)

theorem mergePrev_strung (hpool : limit < base + 2 ^ 32) (h : Strung base limit m (as ++ p :: bs))
    (hused : (m.block p).used = true) :
    ∃ m' as', mergePrev m p (m.pkt p).prevPacket = some m' ∧
      Strung base limit m' (as' ++ p :: bs) ∧ MergeKeeps m m' p (as ++ p :: bs) (as' ++ p :: bs) ∧
      (as' = as ∨ ∃ q, as = as' ++ [q]) ∧ (m'.pkt p).nextPacket = (m.pkt p).nextPacket ∧
      ∀ q ∈ as'.getLast?, (m'.block q).used = true := by
  obtain ⟨hnext, hprev, -, -, -⟩ := h.at
  have hbehind := h.beside.2
  rcases List.eq_nil_or_concat as with rfl | ⟨cs, q, rfl⟩
  · rw [hprev]
    exact ⟨m, [], rfl, h, .refl hused, .inl rfl, rfl, fun q hq => by cases hq⟩
  rw [List.concat_eq_append] at h hprev ⊢
  rw [getLast?_concat] at hprev
  rw [hprev]
  have hsplit : cs ++ [q] ++ p :: bs = cs ++ q :: p :: bs := by simp
  rw [hsplit] at h ⊢
  obtain ⟨-, hprevq, -, -, -⟩ := h.at
  have hnd := h.nodup
  have hheldq := h.held q (by simp)
  by_cases hqused : (m.pkt q).usedPacket = true
  · refine ⟨m, cs ++ [q], ?_, by rwa [hsplit], ?_, .inl rfl, rfl, ?_⟩
    · simp [mergePrev, hheldq, hqused]
    · rw [hsplit]
      exact .refl hused
    · intro x hx
      rw [getLast?_concat] at hx
      exact Option.some.inj hx ▸ hqused
  -- the packet before it is free
  have hqfree : (m.pkt q).usedPacket = false := by simpa using hqused
  obtain ⟨m', hmerge, hfresh, hhead, hself, hothers⟩ := patched (m := m) (p := p) (q := q)
    (o := cs.getLast?) (by grind) ⟨(m.pkt q).packetAddr,
      ((m.pkt p).packetSize + (m.pkt q).packetSize) % 2 ^ 32, cs.getLast?, (m.pkt p).nextPacket,
      (m.pkt p).usedPacket⟩ (fun pkt => { pkt with nextPacket := some p })
    (fun c hc => ⟨h.held c (by simp [List.mem_of_getLast? hc]), by grind⟩)
  have hneighbours : ∀ c ∈ cs ++ bs, m'.packets c = some { m.pkt c with
      nextPacket := if cs.getLast? = some c then some p else m.next c
      prevPacket := if bs.head? = some c then some p else m.prev c } := by
    intro c hc
    have hsame : (if bs.head? = some c then some p else m.prev c) = m.prev c := by
      split
      next hhd => exact (hbehind c hhd).symm
      next => rfl
    rw [hothers c (by grind) (by grind), h.held c (by grind), hsame]
    split <;> rfl
  obtain ⟨hstrung, hkeep⟩ := h.merge hpool (.inr ⟨rfl, rfl⟩) hused hqfree hfresh hhead
    (hnext ▸ hself) hneighbours
  refine ⟨m', cs, ?_, hstrung, hkeep, .inr ⟨q, rfl⟩, by rw [pkt_of_packets hself], ?_⟩
  · rw [← hmerge, mergePrev, hheldq, bind_eq_bind, bind_some, hqfree,
      if_neg Bool.false_ne_true, h.held p (by simp), hprevq]
    rfl
  · intro x hx
    have hmem := List.mem_of_getLast? hx
    rw [hkeep.block x (by simp [hmem]) (by grind)]
    exact (h.used_beside hqfree).1 x hx

theorem mergeNext_strung (hpool : limit < base + 2 ^ 32) (h : Strung base limit m (as ++ p :: bs))
    (hused : (m.block p).used = true) :
    ∃ m' bs', mergeNext m p (m.pkt p).nextPacket = some m' ∧
      Strung base limit m' (as ++ p :: bs') ∧ MergeKeeps m m' p (as ++ p :: bs) (as ++ p :: bs') ∧
      ∀ q ∈ bs'.head?, (m'.block q).used = true := by
  obtain ⟨hnext, hprev, -, -, -⟩ := h.at
  have hbefore := h.beside.1
  cases bs with
  | nil =>
    rw [hnext]
    exact ⟨m, [], rfl, h, .refl hused, fun q hq => by cases hq⟩
  | cons q ds =>
    rw [head?_cons] at hnext
    rw [hnext]
    have h' := h
    rw [List.append_cons] at h'
    obtain ⟨hnextq, -, -, -, -⟩ := h'.at
    have hnd := h.nodup
    have hheldq := h.held q (by simp)
    by_cases hqused : (m.pkt q).usedPacket = true
    · refine ⟨m, q :: ds, ?_, h, .refl hused, ?_⟩
      · simp [mergeNext, hheldq, hqused]
      · intro x hx
        rw [head?_cons] at hx
        exact Option.some.inj hx ▸ hqused
    -- the packet behind it is free
    have hqfree : (m.pkt q).usedPacket = false := by simpa using hqused
    obtain ⟨m', hmerge, hfresh, hhead, hself, hothers⟩ := patched (m := m) (p := p) (q := q)
      (o := ds.head?) (by grind) ⟨(m.pkt p).packetAddr,
        ((m.pkt p).packetSize + (m.pkt q).packetSize) % 2 ^ 32, (m.pkt p).prevPacket, ds.head?,
        (m.pkt p).usedPacket⟩ (fun pkt => { pkt with prevPacket := some p })
      (fun c hc => ⟨h.held c (by simp [List.mem_of_head? hc]), by grind⟩)
    have hneighbours : ∀ c ∈ as ++ ds, m'.packets c = some { m.pkt c with
        nextPacket := if as.getLast? = some c then some p else m.next c
        prevPacket := if ds.head? = some c then some p else m.prev c } := by
      intro c hc
      have hsame : (if as.getLast? = some c then some p else m.next c) = m.next c := by
        split
        next hlast => exact (hbefore c hlast).symm
        next => rfl
      rw [hothers c (by grind) (by grind), h.held c (by grind), hsame]
      split <;> rfl
    obtain ⟨hstrung, hkeep⟩ := h.merge hpool (.inl ⟨rfl, rfl⟩) hused hqfree hfresh hhead
      (hprev ▸ hself) hneighbours
    refine ⟨m', ds, ?_, hstrung, hkeep, ?_⟩
    · rw [← hmerge, mergeNext, hheldq, bind_eq_bind, bind_some, hqfree,
        if_neg Bool.false_ne_true, h.held p (by simp), hnextq]
      rfl
    · intro x hx
      have hmem := List.mem_of_head? hx
      rw [hkeep.block x (by simp [hmem]) (by grind)]
      exact (h'.used_beside hqfree).2 x hx

theorem trgFreePkt_laid (hpool : limit < base + 2 ^ 32) (h : Laid base limit m (as ++ p :: bs))
    (hused : (m.block p).used = true) :
    ∃ m' ps', trgFreePkt m p = some m' ∧ Laid base limit m' ps' ∧ ps' ≠ [] ∧
      ∀ b : Block, b.used = true →
      ((∃ q ∈ ps', m'.block q = b) ↔ ∃ q ∈ as ++ p :: bs, q ≠ p ∧ m.block q = b) := by
  obtain ⟨m₁, as', hm₁, h₁, hkeep₁, has', hnext, hlast⟩ := mergePrev_strung hpool h.toStrung hused
  obtain ⟨m₂, bs', hm₂, h₂, hkeep₂, hfirst⟩ := mergeNext_strung hpool h₁ hkeep₁.used
  obtain ⟨-, hprev, hpas, hpbs, -⟩ := h₂.at
  have hheld := h₂.held p (by simp)
  rw [hnext] at hm₂
  have hstrung : Strung base limit (m₂.set p { m₂.pkt p with usedPacket := false })
      (as' ++ p :: bs') := by
    refine h₂.set_fields (x := { m₂.pkt p with usedPacket := false }) rfl rfl rfl rfl ?_ ?_ ?_
    · intro q hq
      have hmem := List.mem_of_getLast? hq
      rw [hkeep₂.block q (by simp [hmem]) fun heq => hpas (heq ▸ hmem)]
      exact .inl (hlast q hq)
    · intro q hq
      exact .inr (hfirst q hq)
    · intro hx
      cases hx
  refine ⟨{ m₂.set p { m₂.pkt p with usedPacket := false } with
    trgMemHead := (if (m₂.pkt p).prevPacket = none then some p else m₂.trgMemHead) },
    as' ++ p :: bs', ?_, ⟨?_, ?_⟩, by simp, ?_⟩
  · simp only [trgFreePkt, h.held p (by simp), hm₁, hm₂, hheld, bind_eq_bind,
      bind_some]
  · exact ⟨hstrung.nodup, hstrung.held, hstrung.old, hstrung.linked, hstrung.tiles,
      hstrung.merged, hstrung.positive⟩
  · show (if (m₂.pkt p).prevPacket = none then some p else m₂.trgMemHead) = _
    rw [hprev]
    rcases List.eq_nil_or_concat as' with rfl | ⟨cs, q, rfl⟩
    · simp
    · have hne : (cs.concat q).getLast? ≠ none := by simp
      rw [if_neg hne, hkeep₂.head, hkeep₁.head, h.head]
      rcases has' with rfl | ⟨x, rfl⟩ <;> simp
  · intro b hb
    constructor
    · rintro ⟨q, hq, hblock⟩
      have hqp : q ≠ p := by
        rintro rfl
        rw [← hblock] at hb
        simp [TrgMem.block, TrgMem.pkt, TrgMem.set] at hb
      have hblock₂ : m₂.block q = b := by
        rw [← hblock]
        simp [TrgMem.block, TrgMem.pkt, TrgMem.set, update_of_ne hqp]
      have hq₁ := (hkeep₂.used_iff hqp hb).mp ⟨hq, hblock₂⟩
      have hq₀ := (hkeep₁.used_iff hqp hb).mp hq₁
      exact ⟨q, hq₀.1, hqp, hq₀.2⟩
    · rintro ⟨q, hq, hqp, hblock⟩
      have hq₁ := (hkeep₁.used_iff hqp hb).mpr ⟨hq, hblock⟩
      have hq₂ := (hkeep₂.used_iff hqp hb).mpr hq₁
      refine ⟨q, hq₂.1, ?_⟩
      rw [← hq₂.2]
      simp [TrgMem.block, TrgMem.pkt, TrgMem.set, update_of_ne hqp]

theorem splitFront_self (x : Packet) : splitFront m p x x.packetAddr = (m, none) :=
  if_neg (Nat.lt_irrefl _)

theorem padFront_zero {x : Packet} (hpad : alignPad x.packetAddr alignment = 0) (uninit : Bool) :
    padFront m p x alignment uninit none = some m := by
  rw [padFront]
  exact if_pos hpad

theorem trgAllocPkt_plain (hp : m.packets p = some (m.pkt p))
    (hpad : alignPad (m.pkt p).packetAddr alignment = 0) (size : Nat) (uninit : Bool) :
    trgAllocPkt m p size alignment (m.pkt p).packetAddr uninit =
      some ((m.pkt p).packetAddr, splitTail m p (m.pkt p) size) := by
  unfold trgAllocPkt
  rw [hp, bind_eq_bind, bind_some, splitFront_self, bind_eq_bind]
  show (m.packets p).bind _ = _
  rw [hp, bind_some, padFront_zero hpad, bind_some]
  show (m.packets p).bind _ = _
  rw [hp, bind_some]

theorem splitTail_same {x : Packet} (hq : q ≠ p) (hold : q < m.fresh) :
    (splitTail m p x size).pkt q = m.pkt q := by
  unfold splitTail
  split
  · rw [pkt_set_of_ne _ _ hq, pkt_add_of_ne _ _ (Nat.ne_of_lt hold)]
  · rw [pkt_set_of_ne _ _ hq]

theorem splitTail_head (x : Packet) (size : Nat) :
    (splitTail m p x size).trgMemHead = m.trgMemHead := by
  unfold splitTail
  split <;> rfl

theorem splitTail_addr (x : Packet) (size : Nat) :
    ((splitTail m p x size).pkt p).packetAddr = x.packetAddr := by
  unfold splitTail
  split <;> rw [pkt_set_self]

theorem splitTail_last (hlimit : limit ≤ 2 ^ 32) (h : Strung base limit m (as ++ [p]))
    (hpos : 0 < size) (hlt : size < (m.block p).size) :
    Strung base limit (splitTail m p (m.pkt p) size) (as ++ [p] ++ [m.fresh]) ∧
      (splitTail m p (m.pkt p) size).block p = ⟨(m.block p).addr, size, true⟩ ∧
      (splitTail m p (m.pkt p) size).block m.fresh =
        ⟨(m.block p).addr + size, (m.block p).size - size, false⟩ ∧
      ∀ q ∈ as, (splitTail m p (m.pkt p) size).block q = m.block q := by
  obtain ⟨hnext, hprev, hpas, -, hend⟩ := h.at
  have hpold := h.old p (by simp)
  have hfold : ∀ q ∈ as, q ≠ m.fresh := fun q hq => Nat.ne_of_lt (h.old q (by simp [hq]))
  have hqp : ∀ q ∈ as, q ≠ p := fun q hq heq => hpas (heq ▸ hq)
  have hfp : p ≠ m.fresh := Nat.ne_of_lt hpold
  have htail : splitTail m p (m.pkt p) size =
      (m.add ⟨(m.block p).addr + size, (m.block p).size - size, some p, none, false⟩).set p
        { m.pkt p with packetSize := size, usedPacket := true, nextPacket := some m.fresh } := by
    have hmod : ((m.pkt p).packetAddr + size) % 2 ^ 32 = (m.block p).addr + size :=
      Nat.mod_eq_of_lt (by
        show (m.block p).addr + size < 2 ^ 32
        omega)
    have hlt' : (m.pkt p).packetSize > size := hlt
    simp only [splitTail, if_pos hlt', hmod, hnext, List.head?_nil]
    rfl
  rw [htail]
  generalize hm :
    (m.add ⟨(m.block p).addr + size, (m.block p).size - size, some p, none, false⟩).set
    p { m.pkt p with packetSize := size, usedPacket := true, nextPacket := some m.fresh } = m'
  have hpktp : m'.pkt p =
      { m.pkt p with packetSize := size, usedPacket := true, nextPacket := some m.fresh } := by
    rw [← hm, pkt_set_self]
  have hpktf : m'.pkt m.fresh =
      ⟨(m.block p).addr + size, (m.block p).size - size, some p, none, false⟩ := by
    rw [← hm, pkt_set_of_ne _ _ (Ne.symm hfp), pkt_add_self]
  have hpktq : ∀ q ∈ as, m'.pkt q = m.pkt q := by
    intro q hq
    rw [← hm, pkt_set_of_ne _ _ (hqp q hq), pkt_add_of_ne _ _ (hfold q hq)]
  have hblockp : m'.block p = ⟨(m.block p).addr, size, true⟩ := by
    simp only [TrgMem.block, hpktp]
  have hblockf : m'.block m.fresh =
      ⟨(m.block p).addr + size, (m.block p).size - size, false⟩ := by
    simp only [TrgMem.block, hpktf]
  have hblockq : ∀ q ∈ as, m'.block q = m.block q := by
    intro q hq
    simp only [TrgMem.block, hpktq q hq]
  have hnd : (as ++ [p] ++ [m.fresh]).Nodup := by
    rw [List.nodup_append]
    refine ⟨h.nodup, by simp, ?_⟩
    intro x hx y hy hxy
    rw [mem_singleton] at hy
    have hold := h.old x hx
    omega
  have htiles := h.tiles
  have hmerged := h.merged
  rw [map_append, map_cons, tiles_append_cons] at htiles
  rw [map_append, map_cons, merged_append_cons] at hmerged
  have has : as.map m'.block = as.map m.block := map_block_congr hblockq
  refine ⟨⟨hnd, ?_, ?_, ?_, ?_, ?_, ?_⟩, hblockp, hblockf, hblockq⟩
  · intro q hq
    simp only [mem_append, mem_singleton] at hq
    rcases hq with (hq | rfl) | rfl
    · rw [hpktq q hq, ← h.held q (by simp [hq]), ← hm]
      simp [TrgMem.set, add, update_of_ne (hfold q hq),
        update_of_ne (hqp q hq)]
    · rw [hpktp, ← hm]
      simp [TrgMem.set]
    · rw [hpktf, ← hm]
      simp [TrgMem.set, add, update_of_ne (Ne.symm hfp)]
  · intro q hq
    have hfresh : m'.fresh = m.fresh + 1 := by
      rw [← hm]
      rfl
    simp only [mem_append, mem_singleton] at hq
    rw [hfresh]
    rcases hq with (hq | rfl) | rfl
    · have hold := h.old q (by simp [hq])
      omega
    · omega
    · omega
  · apply Linked.insert h.linked (linked_nil (b := none)) hnd
    · rw [TrgMem.next, hpktf]
      rfl
    · rw [TrgMem.prev, hpktf, getLast?_concat]
    · intro x hx
      rw [List.append_nil, mem_append, mem_singleton] at hx
      rw [getLast?_concat]
      rcases hx with hx | rfl
      · rw [if_neg, TrgMem.next, TrgMem.next, hpktq x hx]
        intro heq
        exact hpas (Option.some.inj heq ▸ hx)
      · rw [if_pos rfl, TrgMem.next, hpktp]
    · intro x hx
      rw [List.append_nil, mem_append, mem_singleton] at hx
      rw [List.head?_nil, if_neg (by simp), TrgMem.prev, TrgMem.prev]
      rcases hx with hx | rfl
      · rw [hpktq x hx]
      · rw [hpktp]
  · rw [append_assoc, map_append, List.singleton_append, map_cons,
      tiles_append_cons, has, hblockp]
    refine ⟨htiles.1, ?_⟩
    rw [List.map_singleton, hblockf]
    refine ⟨rfl, ?_⟩
    have hlast : (m.block p).addr + (m.block p).size = limit := htiles.2
    show (m.block p).addr + size + ((m.block p).size - size) = limit
    omega
  · rw [append_assoc, map_append, List.singleton_append, map_cons,
      merged_append_cons, has, hblockp]
    refine ⟨hmerged.1, ?_, fun x _ => .inr rfl, fun y _ => .inl rfl⟩
    simp [Merged]
  · intro q hq hused
    simp only [mem_append, mem_singleton] at hq
    rcases hq with (hq | rfl) | rfl
    · rw [hblockq q hq] at hused ⊢
      exact h.positive q (by simp [hq]) hused
    · rw [hblockp]
      exact hpos
    · rw [hblockf] at hused
      cases hused

theorem splitTail_laid (hlimit : limit ≤ 2 ^ 32) (h : Laid base limit m (as ++ p :: bs))
    (hpos : 0 < size) (hle : size ≤ (m.block p).size) (hfree : (m.block p).used = false)
    (hfit : size = (m.block p).size ∨ bs = []) :
    ∃ ps', Laid base limit (splitTail m p (m.pkt p) size) ps' ∧ ps' ≠ [] ∧
      ∀ b : Block, b.used = true →
      ((∃ q ∈ ps', (splitTail m p (m.pkt p) size).block q = b) ↔
        b = ⟨(m.block p).addr, size, true⟩ ∨ ∃ q ∈ as ++ p :: bs, m.block q = b) := by
  obtain ⟨-, -, hpas, hpbs, -⟩ := h.at
  by_cases hexact : size = (m.block p).size
  · have htail : splitTail m p (m.pkt p) size =
        m.set p { m.pkt p with packetSize := size, usedPacket := true } := by
      have hnot : ¬ (m.pkt p).packetSize > size := by
        show ¬ (m.block p).size > size
        omega
      simp only [splitTail, if_neg hnot]
    have hstrung := h.toStrung.set_fields
      (x := { m.pkt p with packetSize := size, usedPacket := true }) rfl rfl rfl hexact
      (fun _ _ => .inr rfl) (fun _ _ => .inl rfl) (fun _ => hpos)
    have hself : (m.set p { m.pkt p with packetSize := size, usedPacket := true }).block p =
        ⟨(m.block p).addr, size, true⟩ := by
      simp [TrgMem.block]
    have hother : ∀ q, q ≠ p →
        (m.set p { m.pkt p with packetSize := size, usedPacket := true }).block q = m.block q := by
      intro q hq
      simp only [TrgMem.block, pkt_set_of_ne _ _ hq]
    rw [htail]
    refine ⟨as ++ p :: bs, ⟨hstrung, h.head⟩, by simp, ?_⟩
    intro b hb
    constructor
    · rintro ⟨q, hq, hblock⟩
      by_cases hqp : q = p
      · rw [hqp, hself] at hblock
        exact .inl hblock.symm
      · rw [hother q hqp] at hblock
        exact .inr ⟨q, hq, hblock⟩
    · rintro (rfl | ⟨q, hq, hblock⟩)
      · exact ⟨p, by simp, hself⟩
      · have hqp : q ≠ p := by
          rintro rfl
          rw [← hblock, hfree] at hb
          cases hb
        exact ⟨q, hq, by rw [hother q hqp, hblock]⟩
  · obtain rfl : bs = [] := by
      rcases hfit with hfit | hfit
      · exact absurd hfit hexact
      · exact hfit
    obtain ⟨hstrung, hself, hnew, hother⟩ := splitTail_last hlimit h.toStrung hpos (by omega)
    refine ⟨as ++ [p] ++ [m.fresh], ⟨hstrung, ?_⟩, by simp, ?_⟩
    · rw [splitTail_head, h.head]
      cases as <;> simp
    · intro b hb
      constructor
      · rintro ⟨q, hq, hblock⟩
        simp only [mem_append, mem_singleton] at hq
        rcases hq with (hq | rfl) | rfl
        · exact .inr ⟨q, by simp [hq], by rw [← hother q hq, hblock]⟩
        · exact .inl (by rw [← hblock, hself])
        · rw [← hblock, hnew] at hb
          cases hb
      · rintro (rfl | ⟨q, hq, hblock⟩)
        · exact ⟨p, by simp, hself⟩
        · have hqp : q ≠ p := by
            rintro rfl
            rw [← hblock, hfree] at hb
            cases hb
          have hqas : q ∈ as := by simpa [hqp] using hq
          exact ⟨q, by simp [hqas], by rw [hother q hqas, hblock]⟩

/-! ## Lists that go wrong -/

theorem Laid.runs_to (h : Laid base limit m (as ++ p :: bs)) (h' : Laid base limit m' ps')
    (hhead : m'.trgMemHead = m.trgMemHead) (hsame : ∀ q ∈ as, m'.pkt q = m.pkt q) :
    ∃ ds, ps' = as ++ p :: ds := by
  refine linked_shared h.linked h'.linked (by rw [← h'.head, hhead, h.head]) ?_
  intro q hq
  rw [TrgMem.next, TrgMem.next, hsame q hq]

theorem Laid.not_moved (h : Laid base limit m (as ++ p :: bs)) (h' : Laid base limit m' ps')
    (hhead : m'.trgMemHead = m.trgMemHead) (hsame : ∀ q ∈ as, m'.pkt q = m.pkt q) :
    (m'.pkt p).packetAddr = (m.pkt p).packetAddr := by
  obtain ⟨ds, rfl⟩ := h.runs_to h' hhead hsame
  have htiles := h.tiles
  have htiles' := h'.tiles
  rw [map_append, map_cons, tiles_append_cons] at htiles htiles'
  have has : as.map m'.block = as.map m.block := map_block_congr fun q hq => by
    rw [TrgMem.block, TrgMem.block, hsame q hq]
  rw [has] at htiles'
  exact htiles'.1.end_unique htiles.1

theorem trgAllocPkt_padded (hp : m.packets p = some (m.pkt p))
    (hpad : alignPad (m.pkt p).packetAddr alignment ≠ 0) (size : Nat) (uninit : Bool) :
    ∃ addr m', trgAllocPkt m p size alignment (m.pkt p).packetAddr uninit = some (addr, m') ∧
      m'.trgMemHead = m.trgMemHead ∧ (∀ q, q ≠ p → q < m.fresh → m'.pkt q = m.pkt q) ∧
      (m'.pkt p).packetAddr = trgAlign (m.pkt p).packetAddr alignment := by
  let padded : TrgMem := (m.add ⟨(m.pkt p).packetAddr, alignPad (m.pkt p).packetAddr alignment,
    (m.pkt p).prevPacket, some p, uninit⟩).set p { m.pkt p with
      prevPacket := some m.fresh
      packetSize :=
        ((m.pkt p).packetSize + 2 ^ 32 - alignPad (m.pkt p).packetAddr alignment) % 2 ^ 32
      packetAddr := trgAlign (m.pkt p).packetAddr alignment }
  have hfront : padFront m p (m.pkt p) alignment uninit none = some padded := by
    rw [padFront]
    exact if_neg hpad
  have hheld : padded.packets p = some (padded.pkt p) := by
    rw [pkt_set_self]
    exact Function.update_self ..
  refine ⟨(padded.pkt p).packetAddr, splitTail padded p (padded.pkt p) size, ?_, ?_, ?_, ?_⟩
  · unfold trgAllocPkt
    rw [hp, bind_eq_bind, bind_some, splitFront_self, bind_eq_bind]
    show (m.packets p).bind _ = _
    rw [hp, bind_some, hfront, bind_some]
    show (padded.packets p).bind _ = _
    rw [hheld, bind_some]
  · rw [splitTail_head]
    rfl
  · intro q hq hqold
    have hqfresh : q < padded.fresh := Nat.lt_succ_of_lt hqold
    rw [splitTail_same hq hqfresh, pkt_set_of_ne _ _ hq, pkt_add_of_ne _ _ (Nat.ne_of_lt hqold)]
  · rw [splitTail_addr, pkt_set_self]

/-- What is left of a packet in the middle of the list is missed by the packet behind it. -/
theorem splitTail_not_laid {r : Nat} (h : Laid base limit m (as ++ p :: r :: bs))
    (hlt : size < (m.pkt p).packetSize) :
    ¬ Laid base limit (splitTail m p (m.pkt p) size) ps' := by
  intro h'
  obtain ⟨hnext, -, hpas, -, -⟩ := h.toStrung.at
  have hp : p ≠ m.fresh := Nat.ne_of_lt (h.old p (by simp))
  have hr : r < m.fresh := h.old r (by simp)
  have hrp : r ≠ p := by
    rintro rfl
    have hnodup := (List.nodup_append.mp h.nodup).2.1
    simp at hnodup
  have hrprev : (m.pkt r).prevPacket = some p := by
    have hsplit : Linked m.next m.prev none ((as ++ [p]) ++ r :: bs) none := by
      rw [append_assoc]
      exact h.linked
    have hprev := hsplit.neighbours.2
    rw [getLast?_concat] at hprev
    exact hprev
  obtain ⟨ds, rfl⟩ := h.runs_to h' (splitTail_head ..) fun q hq =>
    splitTail_same (fun heq => hpas (heq ▸ hq)) (h.old q (by simp [hq]))
  -- the list goes on with what is left, and then with `r`
  have hpkt : (splitTail m p (m.pkt p) size).pkt p =
      { m.pkt p with packetSize := size, usedPacket := true, nextPacket := some m.fresh } := by
    simp only [splitTail, if_pos hlt, pkt_set_self]
  have hleft : ((splitTail m p (m.pkt p) size).pkt m.fresh).nextPacket = some r := by
    simp only [splitTail, if_pos hlt, pkt_set_of_ne _ _ hp.symm, pkt_add_self, hnext,
      head?_cons]
  have hnextp := h'.linked.neighbours.1
  rw [TrgMem.next, hpkt] at hnextp
  obtain ⟨es, rfl⟩ := List.head?_eq_some_iff.mp hnextp.symm
  have hlinked : Linked (splitTail m p (m.pkt p) size).next (splitTail m p (m.pkt p) size).prev none
      ((as ++ [p]) ++ m.fresh :: es) none := by
    rw [append_assoc]
    exact h'.linked
  have hnextl := hlinked.neighbours.1
  rw [TrgMem.next, hleft] at hnextl
  obtain ⟨fs, rfl⟩ := List.head?_eq_some_iff.mp hnextl.symm
  have hlinked : Linked (splitTail m p (m.pkt p) size).next (splitTail m p (m.pkt p) size).prev none
      ((as ++ [p, m.fresh]) ++ r :: fs) none := by
    rw [append_assoc]
    exact h'.linked
  have hprev := hlinked.neighbours.2
  rw [TrgMem.prev, splitTail_same hrp hr, hrprev] at hprev
  simp at hprev
  exact hp hprev

end Change

end Omap4Hal.Elfload

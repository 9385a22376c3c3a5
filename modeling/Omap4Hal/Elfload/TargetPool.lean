import Mathlib.Order.Lattice
import Omap4Hal.Elfload.TargetPackets
import Omap4Hal.Lib.Run

/- Runs of the target memory allocator: requests for target memory, with an address or without,
   and the freeing of what was allocated. `live` is what has been allocated and not freed.

   An allocation that leaves something of a packet before it, or of a packet that is not the last
   one behind it, leaves a list with a link that is wrong. For requests without an address
   `packets_tidy_iff` says that the list is in order all along exactly as long as none is of this
   kind, and `allocations_separate` that then, with addresses too, what is allocated is disjoint. -/
namespace Omap4Hal.Elfload

open Lib
open List (append_of_mem mem_cons mem_cons_self mem_filter mem_map pairwise_cons)
open Option (bind_eq_bind bind_some)

/-! ## Runs -/

structure Alloc where
  addr : Nat
  size : Nat
  align : Nat
  deriving DecidableEq, Repr

/-- The allocator with its pool. `fair`: every request for an address that was granted was for an
interval that was free. -/
structure Tmm where
  base : Nat
  limit : Nat
  mem : TrgMem
  live : List Alloc := []
  fair : Bool := true

/-- After `DLTMM_init`. -/
def Tmm.start (dynMemAddr size : UInt32) : Tmm where
  base := dynMemAddr.toNat
  limit := dynMemAddr.toNat + size.toNat
  mem := trgMinit dynMemAddr.toNat size.toNat

/-- The interval lies in the pool and meets nothing that is allocated. -/
def Tmm.FreeInterval (s : Tmm) (a n : Nat) : Prop :=
  s.base ≤ a ∧ a + n ≤ s.limit ∧ ∀ x ∈ s.live, x.addr + x.size ≤ a ∨ a + n ≤ x.addr

instance (s : Tmm) (a n : Nat) : Decidable (s.FreeInterval a n) := by
  unfold Tmm.FreeInterval
  infer_instance

inductive TmmCall where
  | malloc (r : Request) (uninit : Bool)
  | free (addr : Nat)

def Tmm.granted (s : Tmm) (r : Request) (mem : TrgMem) : Option Nat → Tmm
  | none => { s with mem := mem }
  | some addr => { s with
      mem := mem
      live := ⟨addr, r.memsz.toNat, r.alignment⟩ :: s.live
      fair := s.fair && (r.relocatable || s.FreeInterval r.targetAddress.toNat r.memsz.toNat) }

def tmmStep (s : Tmm) : TmmCall → Option Tmm
  | .malloc r uninit => (dltmmMalloc s.mem r uninit).map fun res => s.granted r res.2 res.1
  | .free addr => (dltmmFree s.mem addr).map fun mem =>
      { s with mem := mem, live := s.live.filter fun x => x.addr ≠ addr }

/-- What is allocated is aligned, in the pool and disjoint. -/
structure Separate (s : Tmm) : Prop where
  aligned : ∀ x ∈ s.live, x.align ∣ x.addr
  inside : ∀ x ∈ s.live, s.base ≤ x.addr ∧ x.addr + x.size ≤ s.limit
  apart : s.live.Pairwise fun x y => x.addr + x.size ≤ y.addr ∨ y.addr + y.size ≤ x.addr
  fair : s.fair = true

/-- The list is in order, and nothing of the pool is lost. -/
structure Tidy (s : Tmm) : Prop where
  laid : ∃ ps, Laid s.base s.limit s.mem ps
  finds : ∀ (n : UInt32) uninit m', n ≠ 0 →
    dltmmMalloc s.mem ⟨true, 0, n, 1⟩ uninit = some (none, m') → ∀ a, ¬ s.FreeInterval a n.toNat
  whole : s.live = [] → ∃ p, s.mem.trgMemHead = some p ∧
    s.mem.packets p = some ⟨s.base, s.limit - s.base, none, none, false⟩

/-! ## The invariant -/

/-- The packets in use are what is allocated. -/
def Tracks (s : Tmm) (ps : List Nat) : Prop :=
  ∀ b : Block, b.used = true →
    ((∃ q ∈ ps, s.mem.block q = b) ↔ ∃ x ∈ s.live, x.addr = b.addr ∧ x.size = b.size)

structure TmmInv (s : Tmm) : Prop where
  pool : s.limit < s.base + 2 ^ 32
  bounded : s.limit ≤ 2 ^ 32
  laid : ∃ ps, Laid s.base s.limit s.mem ps ∧ ps ≠ [] ∧ Tracks s ps

theorem start_tmmInv {dynMemAddr size : UInt32} (h : dynMemAddr.toNat + size.toNat ≤ 2 ^ 32) :
    TmmInv (Tmm.start dynMemAddr size) := by
  have hsize := size.toNat_lt
  refine ⟨?_, h, [0], ⟨⟨by simp, ?_, ?_, ?_, ?_, ?_, ?_⟩, rfl⟩, by simp, ?_⟩
  · show dynMemAddr.toNat + size.toNat < dynMemAddr.toNat + 2 ^ 32
    omega
  · simp [Tmm.start, trgMinit, TrgMem.pkt]
  · simp [Tmm.start, trgMinit]
  · exact ⟨rfl, rfl, trivial⟩
  · exact ⟨rfl, rfl⟩
  · simp [Merged]
  · intro p hp hused
    rw [List.mem_singleton.mp hp] at hused
    cases hused
  · intro b hb
    constructor
    · rintro ⟨q, hq, rfl⟩
      rw [List.mem_singleton.mp hq] at hb
      cases hb
    · rintro ⟨x, hx, -⟩
      cases hx

/-! ## Every call -/

section Calls

variable {s : Tmm} {ps : List Nat}

theorem Tracks.freeInterval (htracks : Tracks s ps) (h : Laid s.base s.limit s.mem ps) {p : Nat}
    (hp : p ∈ ps) (hfree : (s.mem.block p).used = false) {n : Nat} (hn : n ≤ (s.mem.block p).size) :
    s.FreeInterval (s.mem.block p).addr n := by
  obtain ⟨hbase, hend⟩ := h.tiles.inside (List.mem_map_of_mem hp)
  refine ⟨hbase, by omega, ?_⟩
  intro x hx
  obtain ⟨q, hq, hblock⟩ := (htracks ⟨x.addr, x.size, true⟩ rfl).mpr ⟨x, hx, rfl, rfl⟩
  have hpq : q ≠ p := by
    rintro rfl
    rw [hblock] at hfree
    cases hfree
  have hapart := h.toStrung.apart hq hp hpq
  rw [hblock] at hapart
  have hapart : x.addr + x.size ≤ (s.mem.block p).addr ∨
      (s.mem.block p).addr + (s.mem.block p).size ≤ x.addr := hapart
  omega

theorem TmmInv.take (h : TmmInv s) (hlaid : Laid s.base s.limit s.mem ps) (htracks : Tracks s ps)
    {p size align : Nat} {fair : Bool} (hp : p ∈ ps) (hpos : 0 < size)
    (hle : size ≤ (s.mem.block p).size) (hfree : (s.mem.block p).used = false)
    (hfit : size = (s.mem.block p).size ∨ (s.mem.pkt p).nextPacket = none) :
    TmmInv { s with
      mem := splitTail s.mem p (s.mem.pkt p) size
      live := ⟨(s.mem.block p).addr, size, align⟩ :: s.live
      fair := fair } := by
  obtain ⟨as, bs, rfl⟩ := append_of_mem hp
  have hfit' : size = (s.mem.block p).size ∨ bs = [] := by
    rcases hfit with hfit | hfit
    · exact .inl hfit
    · rw [hlaid.toStrung.at.1] at hfit
      exact .inr (List.head?_eq_none_iff.mp hfit)
  obtain ⟨ps', hlaid', hne, hused⟩ := splitTail_laid h.bounded hlaid hpos hle hfree hfit'
  refine ⟨h.pool, h.bounded, ps', hlaid', hne, ?_⟩
  intro b hb
  rw [hused b hb, htracks b hb]
  constructor
  · rintro (rfl | ⟨x, hx, hsame⟩)
    · exact ⟨_, mem_cons_self, rfl, rfl⟩
    · exact ⟨x, List.mem_cons_of_mem _ hx, hsame⟩
  · rintro ⟨x, hx, haddr, hsize⟩
    rcases mem_cons.mp hx with rfl | hx
    · left
      obtain ⟨baddr, bsize, bused⟩ := b
      simp only at haddr hsize hb
      rw [← haddr, ← hsize, hb]
    · exact .inr ⟨x, hx, haddr, hsize⟩

theorem Separate.take (h : Separate s) {m' : TrgMem} {addr size align : Nat}
    (hfree : s.FreeInterval addr size) (halign : align ∣ addr) :
    Separate { s with mem := m', live := ⟨addr, size, align⟩ :: s.live, fair := true } := by
  obtain ⟨hbase, hend, hapart⟩ := hfree
  refine ⟨?_, ?_, ?_, rfl⟩
  · intro x hx
    rcases mem_cons.mp hx with rfl | hx
    · exact halign
    · exact h.aligned x hx
  · intro x hx
    rcases mem_cons.mp hx with rfl | hx
    · exact ⟨hbase, hend⟩
    · exact h.inside x hx
  · refine pairwise_cons.mpr ⟨?_, h.apart⟩
    intro x hx
    exact (hapart x hx).symm

theorem free_inv (h : TmmInv s) {addr : Nat} (hlive : ∃ x ∈ s.live, x.addr = addr) :
    ∃ s', tmmStep s (.free addr) = some s' ∧ TmmInv s' ∧ (Separate s → Separate s') := by
  obtain ⟨ps, hlaid, hne, htracks⟩ := h.laid
  obtain ⟨x, hx, rfl⟩ := hlive
  obtain ⟨p, hp, hblock⟩ := (htracks ⟨x.addr, x.size, true⟩ rfl).mpr ⟨x, hx, rfl, rfl⟩
  have hused : (s.mem.block p).used = true := by rw [hblock]
  have haddr : (s.mem.block p).addr = x.addr := by rw [hblock]
  have hppos := hlaid.positive p hp hused
  obtain ⟨as, bs, rfl⟩ := append_of_mem hp
  have hordered := List.pairwise_map.mp hlaid.tiles.ordered
  rw [List.pairwise_append, pairwise_cons] at hordered
  have hfind := findUsed_spec hlaid.held hlaid.linked hlaid.toStrung.length_le hused
    (fun q hq => Nat.le_trans (Nat.le_add_right _ _) (hordered.2.2 q hq p mem_cons_self))
    (fun q hq _ => by have := hordered.2.1.1 q hq; omega) none
  rw [← hlaid.head, haddr] at hfind
  obtain ⟨m', ps', hm', hlaid', hne', hsame⟩ := trgFreePkt_laid h.pool hlaid hused
  have hstep : dltmmFree s.mem x.addr = some m' := by
    simp only [dltmmFree, hfind, bind_eq_bind, bind_some, hm']
  refine ⟨{ s with mem := m', live := s.live.filter fun y => y.addr ≠ x.addr },
    by simp [tmmStep, hstep], ⟨h.pool, h.bounded, ps', hlaid', hne', ?_⟩, ?_⟩
  · intro b hb
    rw [hsame b hb]
    constructor
    · rintro ⟨q, hq, hqp, hqb⟩
      obtain ⟨y, hy, hyaddr, hysize⟩ := (htracks b hb).mp ⟨q, hq, hqb⟩
      refine ⟨y, mem_filter.mpr ⟨hy, ?_⟩, hyaddr, hysize⟩
      have hapart := hlaid.toStrung.apart hq hp hqp
      have hqpos := hlaid.positive q hq (by rw [hqb]; exact hb)
      rw [hqb] at hapart hqpos
      simp only [decide_eq_true_eq]
      omega
    · rintro ⟨y, hy, hyaddr, hysize⟩
      obtain ⟨hy, hyx⟩ := mem_filter.mp hy
      obtain ⟨q, hq, hqb⟩ := (htracks b hb).mpr ⟨y, hy, hyaddr, hysize⟩
      refine ⟨q, hq, ?_, hqb⟩
      rintro rfl
      rw [hqb] at haddr
      simp only [decide_eq_true_eq] at hyx
      omega
  · intro hsep
    refine ⟨?_, ?_, hsep.apart.sublist List.filter_sublist, hsep.fair⟩
    · intro y hy
      exact hsep.aligned y (mem_filter.mp hy).1
    · intro y hy
      exact hsep.inside y (mem_filter.mp hy).1

end Calls

/-! ## Alignment -/

theorem and_highMask {x k : Nat} (hk : k ≤ 32) (hx : x < 2 ^ 32) :
    x &&& (2 ^ 32 - 2 ^ k) = x / 2 ^ k * 2 ^ k := by
  have hmask : 2 ^ 32 - 2 ^ k = (2 ^ (32 - k) - 1) <<< k := by
    have hpow : 2 ^ (32 - k) * 2 ^ k = 2 ^ 32 := by rw [← Nat.pow_add, Nat.sub_add_cancel hk]
    rw [Nat.shiftLeft_eq, Nat.sub_mul, hpow, Nat.one_mul]
  rw [hmask, ← Nat.shiftRight_eq_div_pow, ← Nat.shiftLeft_eq]
  apply Nat.eq_of_testBit_eq
  intro i
  rw [Nat.testBit_and, Nat.testBit_shiftLeft, Nat.testBit_shiftLeft, Nat.testBit_two_pow_sub_one,
    Nat.testBit_shiftRight]
  by_cases hi : k ≤ i
  · rw [Nat.add_sub_cancel' hi]
    by_cases h32 : i < 32
    · simp [hi, show i - k < 32 - k by omega]
    · have hbit : x.testBit i = false :=
        Nat.testBit_lt_two_pow (Nat.lt_of_lt_of_le hx (Nat.pow_le_pow_right (by decide) (by omega)))
      simp [hbit]
  · simp [hi]

theorem trgAlign_of_dvd {addr k : Nat} (hk : k < 32) (haddr : addr < 2 ^ 32) (h : 2 ^ k ∣ addr) :
    trgAlign addr (2 ^ k) = addr := by
  unfold trgAlign
  split
  · rfl
  · obtain ⟨c, rfl⟩ := h
    have hpow : 2 ^ (32 - k) * 2 ^ k = 2 ^ 32 := by
      rw [← Nat.pow_add, Nat.sub_add_cancel (by omega)]
    have hpos : 0 < 2 ^ k := Nat.two_pow_pos k
    have hc : c < 2 ^ (32 - k) := by
      rw [← hpow, Nat.mul_comm] at haddr
      exact Nat.lt_of_mul_lt_mul_right haddr
    have hfit : 2 ^ k * c + 2 ^ k ≤ 2 ^ 32 := by
      rw [← hpow, ← Nat.mul_succ, Nat.mul_comm]
      exact Nat.mul_le_mul_right _ hc
    rw [Nat.mod_eq_of_lt (by omega), and_highMask (by omega) (by omega), Nat.mul_add_div hpos,
      Nat.div_eq_of_lt (by omega), Nat.add_zero, Nat.mul_comm]

theorem alignPad_eq_zero {addr alignment : Nat}
    (h : trgAlign addr alignment = addr) : alignPad addr alignment = 0 := by
  rw [alignPad, h]
  omega

/-- The alignment of a request is a power of two. -/
def Request.PowerOfTwo (r : Request) : Prop := ∃ k, r.alignment = 2 ^ k

theorem alignPad_of_dvd {r : Request} (hr : r.PowerOfTwo) {addr : Nat} (haddr : addr < 2 ^ 32)
    (h : r.alignment ∣ addr) : alignPad addr r.alignment = 0 := by
  obtain ⟨k, hk⟩ := hr
  have hlt : r.alignment < 2 ^ 32 := by
    unfold Request.alignment
    split
    · exact r.align.toNat_lt
    · decide
  rw [hk] at h hlt ⊢
  have hk32 : k < 32 := (Nat.pow_lt_pow_iff_right (by decide)).mp hlt
  exact alignPad_eq_zero (trgAlign_of_dvd hk32 haddr h)

/-! ## Requests -/

/-- The request takes the whole packet, or the packet is the last one. -/
def TakesFront (m : TrgMem) (p size : Nat) : Prop :=
  size = (m.pkt p).packetSize ∨ (m.pkt p).nextPacket = none

/-- The packet that the search for the best fit ends with. -/
def BestFit (m : TrgMem) (r : Request) (p : Nat) : Prop :=
  ∃ n, bestFit m r.memsz.toNat r.alignment m.fresh m.trgMemHead none = some (some (p, n))

theorem BestFit.unique {m : TrgMem} {r : Request} {p q : Nat} (hp : BestFit m r p)
    (hq : BestFit m r q) : p = q := by
  obtain ⟨n, hn⟩ := hp
  obtain ⟨k, hk⟩ := hq
  rw [hn] at hk
  exact congrArg Prod.fst (Option.some.inj (Option.some.inj hk))

/-- The packet that is found for the address of the request: it contains the address and is not
smaller than the request, and the address is aligned. -/
def FoundAt (m : TrgMem) (r : Request) (p : Nat) : Prop :=
  trgAlign r.reqAddr r.alignment = r.reqAddr ∧
    findAddr m r.reqAddr m.fresh m.trgMemHead = some (some p) ∧
    r.memsz.toNat ≤ (m.pkt p).packetSize

theorem mallocAnywhere_refused {r : Request} {m : TrgMem} {uninit : Bool}
    (h : bestFit m r.memsz.toNat r.alignment m.fresh m.trgMemHead none = some none) :
    mallocAnywhere m r.memsz.toNat r.alignment uninit = some (none, m) := by
  simp only [mallocAnywhere, h, bind_eq_bind, bind_some]

theorem refused_inv {s : Tmm} {r : Request} (h : TmmInv s) {uninit : Bool}
    (hmalloc : dltmmMalloc s.mem r uninit = some (none, s.mem)) :
    ∃ s', tmmStep s (.malloc r uninit) = some s' ∧ TmmInv s' ∧ (Separate s → Separate s') := by
  refine ⟨s, by rw [tmmStep, hmalloc]; rfl, h, fun hsep => hsep⟩

section Requests

variable {s : Tmm} {ps : List Nat} {r : Request} (hlaid : Laid s.base s.limit s.mem ps)
include hlaid

theorem bestFit_cases (r : Request) :
    (bestFit s.mem r.memsz.toNat r.alignment s.mem.fresh s.mem.trgMemHead none = some none ∧
      ∀ p ∈ ps, (s.mem.pkt p).fits r.memsz.toNat r.alignment = false) ∨
    ∃ p ∈ ps, BestFit s.mem r p ∧ (s.mem.block p).used = false ∧
      alignPad (s.mem.block p).addr r.alignment < (s.mem.block p).size ∧
      r.memsz.toNat ≤ (s.mem.block p).size - alignPad (s.mem.block p).addr r.alignment := by
  obtain ⟨res, hres, hcase⟩ := bestFit_spec hlaid.held hlaid.linked r.memsz.toNat r.alignment
    hlaid.toStrung.length_le none
  rw [← hlaid.head] at hres
  rcases hcase with ⟨rfl, hnone⟩ | ⟨p, hp, rfl, hfits⟩
  · exact .inl ⟨hres, hnone rfl⟩
  · simp only [Packet.fits, Bool.and_eq_true, Bool.not_eq_true', decide_eq_true_eq] at hfits
    exact .inr ⟨p, hp, ⟨_, hres⟩, hfits.1.1, hfits.1.2, hfits.2⟩

theorem mallocAnywhere_best {p : Nat} (hp : p ∈ ps) (hbest : BestFit s.mem r p) (uninit : Bool) :
    mallocAnywhere s.mem r.memsz.toNat r.alignment uninit =
      (trgAllocPkt s.mem p r.memsz.toNat r.alignment (s.mem.pkt p).packetAddr uninit).map
        fun res => (some res.1, res.2) := by
  obtain ⟨n, hbest⟩ := hbest
  simp only [mallocAnywhere, hbest, bind_eq_bind, bind_some, hlaid.held p hp]
  cases trgAllocPkt s.mem p r.memsz.toNat r.alignment (s.mem.pkt p).packetAddr uninit <;> rfl

theorem findAddr_cases (r : Request) :
    findAddr s.mem r.reqAddr s.mem.fresh s.mem.trgMemHead = some none ∨
    ∃ p ∈ ps, findAddr s.mem r.reqAddr s.mem.fresh s.mem.trgMemHead = some (some p) ∧
      (s.mem.block p).addr ≤ r.reqAddr ∧
      r.reqAddr < (s.mem.block p).addr + (s.mem.block p).size := by
  obtain ⟨res, hres, hfound⟩ := findAddr_spec hlaid.held hlaid.linked r.reqAddr
    hlaid.toStrung.length_le
  rw [← hlaid.head] at hres
  cases res with
  | none => exact .inl hres
  | some p =>
    obtain ⟨hp, hle, hlt⟩ := hfound p rfl
    refine .inr ⟨p, hp, hres, hle, ?_⟩
    have hlt : r.reqAddr < ((s.mem.block p).addr + (s.mem.block p).size) % 2 ^ 32 := hlt
    omega

theorem grant_inv (h : TmmInv s) (htracks : Tracks s ps) {p : Nat} (hp : p ∈ ps)
    (hmemsz : r.memsz ≠ 0) (hfree : (s.mem.block p).used = false)
    (hle : r.memsz.toNat ≤ (s.mem.block p).size) (hfront : TakesFront s.mem p r.memsz.toNat)
    {uninit : Bool} (hmalloc : dltmmMalloc s.mem r uninit =
      some (some (s.mem.block p).addr, splitTail s.mem p (s.mem.pkt p) r.memsz.toNat)) :
    ∃ s', tmmStep s (.malloc r uninit) = some s' ∧ TmmInv s' ∧
      (Separate s → r.alignment ∣ (s.mem.block p).addr →
        (r.relocatable = false → (s.mem.block p).addr = r.targetAddress.toNat) → Separate s') := by
  have hpos : 0 < r.memsz.toNat := Nat.pos_of_ne_zero fun h0 => hmemsz (UInt32.toNat_inj.mp h0)
  have hinterval := htracks.freeInterval hlaid hp hfree hle
  refine ⟨_, by rw [tmmStep, hmalloc]; rfl, h.take hlaid htracks hp hpos hle hfree hfront, ?_⟩
  intro hsep halign haddr
  have hfair : (s.fair && (r.relocatable ||
      decide (s.FreeInterval r.targetAddress.toNat r.memsz.toNat))) = true := by
    rw [hsep.fair, Bool.true_and]
    cases hrel : r.relocatable with
    | true => rfl
    | false =>
      rw [← haddr hrel, Bool.false_or]
      exact decide_eq_true hinterval
  have hsep' := @hsep.take _ (splitTail s.mem p (s.mem.pkt p) r.memsz.toNat) _ _ _ hinterval halign
  rw [← hfair] at hsep'
  exact hsep'

end Requests

theorem dltmmMalloc_empty {m : TrgMem} {r : Request} (h : r.memsz = 0) (uninit : Bool) :
    dltmmMalloc m r uninit = some (none, m) := by
  rw [dltmmMalloc, trgMalloc, if_pos]
  rw [h]
  rfl

theorem memsz_pos {r : Request} (h : r.memsz ≠ 0) : r.memsz.toNat ≠ 0 :=
  fun h0 => h (UInt32.toNat_inj.mp h0)

theorem dltmmMalloc_anywhere {m : TrgMem} {r : Request} (h : r.memsz ≠ 0)
    (hrel : r.relocatable = true) (uninit : Bool) :
    dltmmMalloc m r uninit = mallocAnywhere m r.memsz.toNat r.alignment uninit := by
  rw [dltmmMalloc, trgMalloc, if_neg (memsz_pos h), if_pos]
  rw [Request.reqAddr, if_pos hrel]

theorem dltmmMalloc_at {m : TrgMem} {r : Request} (h : r.memsz ≠ 0)
    (hrel : r.relocatable = false) (haddr : r.targetAddress ≠ 0xFFFFFFFF) (uninit : Bool) :
    r.reqAddr = r.targetAddress.toNat ∧ dltmmMalloc m r uninit =
      mallocAt m r.reqAddr r.memsz.toNat r.alignment uninit := by
  have hreq : r.reqAddr = r.targetAddress.toNat := by simp [Request.reqAddr, hrel]
  refine ⟨hreq, ?_⟩
  rw [dltmmMalloc, trgMalloc, if_neg (memsz_pos h), if_neg]
  rw [hreq]
  exact fun heq => haddr (UInt32.toNat_inj.mp heq)

/-! ## Disjoint allocations -/

/-- The alignment of a request is a power of two, and what is freed has been allocated. -/
def TmmOrderly (s : Tmm) : TmmCall → Prop
  | .malloc r _ => r.PowerOfTwo
  | .free addr => ∃ x ∈ s.live, x.addr = addr

/-- The packet that the request is granted from is free, begins at the requested address or, if
there is none, at one that is aligned, and is taken whole or is the last one. -/
def Plain (s : Tmm) : TmmCall → Prop
  | .malloc r _ => r.memsz ≠ 0 →
    if r.relocatable then ∀ p, BestFit s.mem r p →
      r.alignment ∣ (s.mem.pkt p).packetAddr ∧ TakesFront s.mem p r.memsz.toNat
    else r.targetAddress ≠ 0xFFFFFFFF ∧ ∀ p, FoundAt s.mem r p →
      (s.mem.pkt p).usedPacket = false ∧ (s.mem.pkt p).packetAddr = r.targetAddress.toNat ∧
        r.alignment ∣ (s.mem.pkt p).packetAddr ∧ TakesFront s.mem p r.memsz.toNat
  | .free _ => True

theorem bestFit_mem {s : Tmm} {ps : List Nat} (hlaid : Laid s.base s.limit s.mem ps) {r : Request}
    {p : Nat} (hbest : BestFit s.mem r p) :
    p ∈ ps ∧ r.memsz.toNat ≤ (s.mem.pkt p).packetSize ∧ 0 < (s.mem.pkt p).packetSize := by
  rcases bestFit_cases hlaid r with ⟨hnone, -⟩ | ⟨q, hq, hqbest, -, hroom, hle⟩
  · obtain ⟨n, hn⟩ := hbest
    rw [hn] at hnone
    cases hnone
  · obtain rfl := hbest.unique hqbest
    exact ⟨hq, Nat.le_trans hle (Nat.sub_le _ _), Nat.zero_lt_of_lt hroom⟩

theorem bestFit_addr_lt {s : Tmm} (h : TmmInv s) {r : Request} {p : Nat}
    (hbest : BestFit s.mem r p) : (s.mem.pkt p).packetAddr < 2 ^ 32 := by
  obtain ⟨ps, hlaid, -, -⟩ := h.laid
  obtain ⟨hp, -, hpos⟩ := bestFit_mem hlaid hbest
  have hend : (s.mem.pkt p).packetAddr + (s.mem.pkt p).packetSize ≤ s.limit :=
    (hlaid.tiles.inside (List.mem_map_of_mem hp)).2
  have hbounded := h.bounded
  omega

theorem anywhere_plain {s : Tmm} (h : TmmInv s) {r : Request} {uninit : Bool}
    (hmemsz : r.memsz ≠ 0) (hrel : r.relocatable = true)
    (hplain : ∀ p, BestFit s.mem r p →
      alignPad (s.mem.pkt p).packetAddr r.alignment = 0 ∧ TakesFront s.mem p r.memsz.toNat) :
    ∃ s', tmmStep s (.malloc r uninit) = some s' ∧ TmmInv s' ∧
      ((∀ p, BestFit s.mem r p → r.alignment ∣ (s.mem.pkt p).packetAddr) →
        Separate s → Separate s') := by
  obtain ⟨ps, hlaid, hne, htracks⟩ := h.laid
  rcases bestFit_cases hlaid r with ⟨hnone, -⟩ | ⟨p, hp, hbest, hfree, -, hle⟩
  · have hmalloc : dltmmMalloc s.mem r uninit = some (none, s.mem) := by
      rw [dltmmMalloc_anywhere hmemsz hrel, mallocAnywhere_refused hnone]
    obtain ⟨s', hstep, hinv, hsep⟩ := refused_inv h hmalloc
    exact ⟨s', hstep, hinv, fun _ => hsep⟩
  · obtain ⟨hpad, hfront⟩ := hplain p hbest
    have hmalloc : dltmmMalloc s.mem r uninit =
        some (some (s.mem.block p).addr, splitTail s.mem p (s.mem.pkt p) r.memsz.toNat) := by
      rw [dltmmMalloc_anywhere hmemsz hrel, mallocAnywhere_best hlaid hp hbest,
        trgAllocPkt_plain (hlaid.held p hp) hpad]
      rfl
    have hle : r.memsz.toNat ≤ (s.mem.block p).size := Nat.le_trans hle (Nat.sub_le _ _)
    obtain ⟨s', hstep, hinv, hsep⟩ := grant_inv hlaid h htracks hp hmemsz hfree hle hfront hmalloc
    refine ⟨s', hstep, hinv, fun halign hs => hsep hs (halign p hbest) ?_⟩
    intro hnot
    rw [hrel] at hnot
    cases hnot

theorem at_plain {s : Tmm} (h : TmmInv s) {r : Request} {uninit : Bool} (hmemsz : r.memsz ≠ 0)
    (hrel : r.relocatable = false) (haddr : r.targetAddress ≠ 0xFFFFFFFF)
    (hplain : ∀ p, FoundAt s.mem r p → (s.mem.pkt p).usedPacket = false ∧
      (s.mem.pkt p).packetAddr = r.targetAddress.toNat ∧
        r.alignment ∣ (s.mem.pkt p).packetAddr ∧ TakesFront s.mem p r.memsz.toNat) :
    ∃ s', tmmStep s (.malloc r uninit) = some s' ∧ TmmInv s' ∧ (Separate s → Separate s') := by
  obtain ⟨ps, hlaid, hne, htracks⟩ := h.laid
  obtain ⟨hreq, hmalloc⟩ := dltmmMalloc_at (m := s.mem) hmemsz hrel haddr uninit
  rw [mallocAt] at hmalloc
  by_cases haligned : trgAlign r.reqAddr r.alignment = r.reqAddr
  swap
  · rw [if_pos haligned] at hmalloc
    exact refused_inv h hmalloc
  rw [if_neg (not_not_intro haligned)] at hmalloc
  rcases findAddr_cases hlaid r with hnone | ⟨p, hp, hfound, -, -⟩
  · rw [hnone] at hmalloc
    exact refused_inv h hmalloc
  rw [hfound, bind_eq_bind, bind_some] at hmalloc
  simp only [hlaid.held p hp, bind_eq_bind, bind_some] at hmalloc
  by_cases hle : r.memsz.toNat ≤ (s.mem.pkt p).packetSize
  swap
  · rw [if_neg hle] at hmalloc
    exact refused_inv h hmalloc
  obtain ⟨hfree, hstart, halign, hfront⟩ := hplain p ⟨haligned, hfound, hle⟩
  have hatreq : r.reqAddr = (s.mem.pkt p).packetAddr := by rw [hreq, hstart]
  have hpad : alignPad (s.mem.pkt p).packetAddr r.alignment = 0 := by
    rw [hatreq] at haligned
    exact alignPad_eq_zero haligned
  rw [if_pos hle, hatreq, trgAllocPkt_plain (hlaid.held p hp) hpad, bind_some,
    if_neg (not_not_intro rfl)] at hmalloc
  obtain ⟨s', hstep, hinv, hsep⟩ := grant_inv hlaid h htracks hp hmemsz hfree hle hfront hmalloc
  exact ⟨s', hstep, hinv, fun hs => hsep hs halign fun _ => hstart⟩

/-- What is allocated by requests of this kind is aligned, in the pool and disjoint. -/
theorem allocations_separate (dynMemAddr size : UInt32)
    (hpool : dynMemAddr.toNat + size.toNat ≤ 2 ^ 32) (calls : List TmmCall)
    (hcalls : Guarded tmmStep (fun s c => TmmOrderly s c ∧ Plain s c)
      (Tmm.start dynMemAddr size) calls) :
    Always tmmStep Separate (Tmm.start dynMemAddr size) calls := by
  refine Guarded.always (J := fun s => TmmInv s ∧ Separate s) (fun s h => h.2) ?_ hcalls
    ⟨start_tmmInv hpool, ⟨?_, ?_, List.Pairwise.nil, rfl⟩⟩
  · intro s c h hguard
    obtain ⟨hinv, hsep⟩ := h
    obtain ⟨hord, hplain⟩ := hguard
    have hkeep : ∃ s', tmmStep s c = some s' ∧ TmmInv s' ∧ (Separate s → Separate s') := by
      cases c with
      | free addr => exact free_inv hinv hord
      | malloc r uninit =>
        by_cases hmemsz : r.memsz = 0
        · exact refused_inv hinv (dltmmMalloc_empty hmemsz uninit)
        have hplain := hplain hmemsz
        cases hrel : r.relocatable with
        | true =>
          rw [if_pos hrel] at hplain
          have hpad : ∀ p, BestFit s.mem r p →
              alignPad (s.mem.pkt p).packetAddr r.alignment = 0 := fun p hbest =>
            alignPad_of_dvd hord (bestFit_addr_lt hinv hbest) (hplain p hbest).1
          obtain ⟨s', hstep, hinv', hsep'⟩ := @anywhere_plain _ hinv r uninit hmemsz hrel
            fun p hbest => ⟨hpad p hbest, (hplain p hbest).2⟩
          exact ⟨s', hstep, hinv', hsep' fun p hbest => (hplain p hbest).1⟩
        | false =>
          rw [if_neg (by simp [hrel])] at hplain
          exact at_plain hinv hmemsz hrel hplain.1 hplain.2
    obtain ⟨s', hstep, hinv', hsep'⟩ := hkeep
    exact ⟨s', hstep, hinv', hsep' hsep⟩
  · intro x hx
    cases hx
  · intro x hx
    cases hx

/-- A request for the first address of the pool, then one without an address. -/
theorem allocations_separate_two :
    Guarded tmmStep (fun s c => TmmOrderly s c ∧ Plain s c) (Tmm.start 0x1000 0x1000)
      [.malloc ⟨false, 0x1000, 0x100, 16⟩ false, .malloc ⟨true, 0, 0x40, 8⟩ false, .free 0x1000] ∧
    Always tmmStep Separate (Tmm.start 0x1000 0x1000)
      [.malloc ⟨false, 0x1000, 0x100, 16⟩ false, .malloc ⟨true, 0, 0x40, 8⟩ false,
        .free 0x1000] := by
  have hcalls : Guarded tmmStep (fun s c => TmmOrderly s c ∧ Plain s c) (Tmm.start 0x1000 0x1000)
      [.malloc ⟨false, 0x1000, 0x100, 16⟩ false, .malloc ⟨true, 0, 0x40, 8⟩ false,
        .free 0x1000] := by
    refine Guarded.cons ⟨⟨4, rfl⟩, ?_⟩ rfl (Guarded.cons ⟨⟨3, rfl⟩, ?_⟩ rfl
      (Guarded.cons ⟨⟨_, List.mem_cons_of_mem _ mem_cons_self, rfl⟩, trivial⟩ rfl trivial))
    · intro _
      refine ⟨by decide, ?_⟩
      intro p hfound
      cases Option.some.inj hfound.2.1
      exact ⟨rfl, rfl, by decide, .inr rfl⟩
    · intro _ p hbest
      obtain rfl : p = 1 := hbest.unique ⟨0xF00, by decide⟩
      exact ⟨by decide, .inr rfl⟩
  exact ⟨hcalls, allocations_separate 0x1000 0x1000 (by decide) _ hcalls⟩

/-- A request for an address that is allocated already is granted. -/
theorem allocations_not_separate :
    Guarded tmmStep TmmOrderly (Tmm.start 0x1000 0x1000)
      [.malloc ⟨true, 0, 0x100, 1⟩ false, .malloc ⟨false, 0x1000, 0x10, 1⟩ false] ∧
    (∃ s, run tmmStep (Tmm.start 0x1000 0x1000)
        [.malloc ⟨true, 0, 0x100, 1⟩ false, .malloc ⟨false, 0x1000, 0x10, 1⟩ false] = some s ∧
      s.live = [⟨0x1000, 0x10, 1⟩, ⟨0x1000, 0x100, 1⟩]) ∧
    ¬ Always tmmStep Separate (Tmm.start 0x1000 0x1000)
      [.malloc ⟨true, 0, 0x100, 1⟩ false, .malloc ⟨false, 0x1000, 0x10, 1⟩ false] := by
  have hrun : ∃ s, run tmmStep (Tmm.start 0x1000 0x1000)
      [.malloc ⟨true, 0, 0x100, 1⟩ false, .malloc ⟨false, 0x1000, 0x10, 1⟩ false] = some s ∧
        s.live = [⟨0x1000, 0x10, 1⟩, ⟨0x1000, 0x100, 1⟩] := ⟨_, rfl, rfl⟩
  refine ⟨Guarded.cons ⟨0, rfl⟩ rfl (Guarded.cons ⟨0, rfl⟩ rfl trivial), hrun, ?_⟩
  intro h
  obtain ⟨s, hs, hlive⟩ := hrun
  obtain ⟨t, ht, hsep⟩ := h.last
  cases hs.symm.trans ht
  have hapart := hsep.apart
  rw [hlive] at hapart
  have hfirst := (pairwise_cons.mp hapart).1 _ mem_cons_self
  simp at hfirst

/-! ## The list of packets -/

/-- Requests without an address, and what is freed has been allocated. -/
def Relocatable (s : Tmm) : TmmCall → Prop
  | .malloc r _ => r.relocatable = true
  | .free addr => ∃ x ∈ s.live, x.addr = addr

/-- The best fit needs no padding, and is taken whole or is the last packet. -/
def Fitting (s : Tmm) : TmmCall → Prop
  | .malloc r _ => r.memsz ≠ 0 → ∀ p, BestFit s.mem r p →
      alignPad (s.mem.pkt p).packetAddr r.alignment = 0 ∧ TakesFront s.mem p r.memsz.toNat
  | .free _ => True

theorem TmmInv.finds {s : Tmm} (h : TmmInv s) {n : UInt32} {uninit : Bool} {m' : TrgMem}
    (hn : n ≠ 0) (hfail : dltmmMalloc s.mem ⟨true, 0, n, 1⟩ uninit = some (none, m')) (a : Nat) :
    ¬ s.FreeInterval a n.toNat := by
  obtain ⟨ps, hlaid, hne, htracks⟩ := h.laid
  have halign : (⟨true, 0, n, 1⟩ : Request).alignment = 1 := rfl
  have hpad : ∀ addr, alignPad addr 1 = 0 := fun addr => alignPad_eq_zero (if_pos (by decide))
  rw [dltmmMalloc_anywhere hn rfl] at hfail
  rcases bestFit_cases hlaid ⟨true, 0, n, 1⟩ with ⟨-, hnofit⟩ | ⟨p, hp, hbest, -⟩
  swap
  · rw [mallocAnywhere_best hlaid hp hbest] at hfail
    obtain ⟨res, -, hres⟩ := Option.map_eq_some_iff.mp hfail
    cases hres
  intro hfree
  obtain ⟨hbase, hend, hapart⟩ := hfree
  have hpos : 0 < n.toNat := Nat.pos_of_ne_zero fun h0 => hn (UInt32.toNat_inj.mp h0)
  obtain ⟨b, hb, hunused, hlo, hhi⟩ := hlaid.tiles.free_interval hlaid.merged (by
      intro b hb hused
      obtain ⟨q, hq, rfl⟩ := mem_map.mp hb
      exact hlaid.positive q hq hused) hpos hbase hend (by
      intro b hb hused
      obtain ⟨q, hq, rfl⟩ := mem_map.mp hb
      obtain ⟨x, hx, haddr, hsize⟩ := (htracks _ hused).mp ⟨q, hq, rfl⟩
      have hx := hapart x hx
      rw [haddr, hsize] at hx
      exact hx.symm)
  obtain ⟨q, hq, rfl⟩ := mem_map.mp hb
  have hno := hnofit q hq
  rw [halign] at hno
  have hunused : (s.mem.pkt q).usedPacket = false := hunused
  have hlo : (s.mem.pkt q).packetAddr ≤ a := hlo
  have hhi : a + n.toNat ≤ (s.mem.pkt q).packetAddr + (s.mem.pkt q).packetSize := hhi
  have hfits : (s.mem.pkt q).fits n.toNat 1 = true := by
    simp only [Packet.fits, hpad, hunused, Bool.not_false, Bool.true_and, Nat.sub_zero,
      Bool.and_eq_true, decide_eq_true_eq]
    omega
  rw [hfits] at hno
  cases hno

theorem TmmInv.whole {s : Tmm} (h : TmmInv s) (hlive : s.live = []) :
    ∃ p, s.mem.trgMemHead = some p ∧
      s.mem.packets p = some ⟨s.base, s.limit - s.base, none, none, false⟩ := by
  obtain ⟨ps, hlaid, hne, htracks⟩ := h.laid
  have hfree : ∀ b ∈ ps.map s.mem.block, b.used = false := by
    intro b hb
    obtain ⟨q, hq, rfl⟩ := mem_map.mp hb
    rw [Bool.eq_false_iff]
    intro hused
    obtain ⟨x, hx, -⟩ := (htracks _ hused).mp ⟨q, hq, rfl⟩
    rw [hlive] at hx
    cases hx
  have hlen := hlaid.merged.single hfree
  obtain ⟨p, rfl⟩ : ∃ p, ps = [p] := by
    rw [List.length_map] at hlen
    have hpos := List.length_pos_iff.mpr hne
    exact List.length_eq_one_iff.mp (by omega)
  obtain ⟨hprev, hnext, -⟩ := hlaid.linked
  obtain ⟨haddr, hend⟩ := hlaid.tiles
  refine ⟨p, hlaid.head, ?_⟩
  rw [hlaid.held p (by simp)]
  have hused : (s.mem.pkt p).usedPacket = false := hfree (s.mem.block p) (by simp)
  have hnext : (s.mem.pkt p).nextPacket = none := hnext
  have hprev : (s.mem.pkt p).prevPacket = none := hprev
  have haddr : (s.mem.pkt p).packetAddr = s.base := haddr
  have hend : s.base + (s.mem.pkt p).packetSize = s.limit := hend
  have hsize : (s.mem.pkt p).packetSize = s.limit - s.base := by omega
  have heta : s.mem.pkt p = ⟨(s.mem.pkt p).packetAddr, (s.mem.pkt p).packetSize,
    (s.mem.pkt p).prevPacket, (s.mem.pkt p).nextPacket, (s.mem.pkt p).usedPacket⟩ := rfl
  rw [heta, haddr, hsize, hprev, hnext, hused]

theorem TmmInv.tidy {s : Tmm} (h : TmmInv s) : Tidy s := by
  obtain ⟨ps, hlaid, -⟩ := h.laid
  exact ⟨⟨ps, hlaid⟩, fun _ _ _ hn hfail => h.finds hn hfail, h.whole⟩

/-- A request for the best fit that is not of this kind spoils the list. -/
theorem unfitting_not_tidy {s s' : Tmm} (h : TmmInv s) {r : Request} {uninit : Bool} {p : Nat}
    (hrel : r.relocatable = true) (hmemsz : r.memsz ≠ 0) (hbest : BestFit s.mem r p)
    (hno : ¬ (alignPad (s.mem.pkt p).packetAddr r.alignment = 0 ∧ TakesFront s.mem p r.memsz.toNat))
    (hstep : tmmStep s (.malloc r uninit) = some s') : ¬ Tidy s' := by
  intro htidy
  obtain ⟨ps, hlaid, -, -⟩ := h.laid
  obtain ⟨hp, hle, -⟩ := bestFit_mem hlaid hbest
  have hheld := hlaid.held p hp
  obtain ⟨as, bs, rfl⟩ := append_of_mem hp
  obtain ⟨hnext, -, hpas, -, -⟩ := hlaid.toStrung.at
  rw [tmmStep, dltmmMalloc_anywhere hmemsz hrel, mallocAnywhere_best hlaid hp hbest] at hstep
  by_cases hpad : alignPad (s.mem.pkt p).packetAddr r.alignment = 0
  · rw [trgAllocPkt_plain hheld hpad] at hstep
    cases hstep
    obtain ⟨ps', hlaid'⟩ := htidy.laid
    have hfront : ¬ TakesFront s.mem p r.memsz.toNat := fun hfront => hno ⟨hpad, hfront⟩
    rw [TakesFront, not_or, hnext] at hfront
    obtain ⟨hsize, hlast⟩ := hfront
    cases bs with
    | nil => exact hlast rfl
    | cons r bs => exact splitTail_not_laid hlaid (by omega) hlaid'
  · obtain ⟨addr, m', hm', hhead, hsame, haddr⟩ :=
      trgAllocPkt_padded hheld hpad r.memsz.toNat uninit
    rw [hm'] at hstep
    cases hstep
    obtain ⟨ps', hlaid'⟩ := htidy.laid
    have hmoved := hlaid.not_moved hlaid' hhead fun q hq =>
      hsame q (fun heq => hpas (heq ▸ hq)) (hlaid.old q (by simp [hq]))
    exact hpad (alignPad_eq_zero (haddr.symm.trans hmoved))

/-- For requests without an address, the list is in order and no memory is lost as long as every
request fits, and no longer. -/
theorem packets_tidy_iff (dynMemAddr size : UInt32)
    (hpool : dynMemAddr.toNat + size.toNat ≤ 2 ^ 32) (calls : List TmmCall)
    (hcalls : Guarded tmmStep Relocatable (Tmm.start dynMemAddr size) calls) :
    Always tmmStep Tidy (Tmm.start dynMemAddr size) calls ↔
      Guarded tmmStep Fitting (Tmm.start dynMemAddr size) calls := by
  refine always_iff_guarded_under (fun s h => TmmInv.tidy h) ?_ ?_ (start_tmmInv hpool) hcalls
  · intro s c hinv hord hfit
    cases c with
    | free addr =>
      obtain ⟨s', hstep, hinv', -⟩ := free_inv hinv hord
      exact ⟨s', hstep, hinv'⟩
    | malloc r uninit =>
      by_cases hmemsz : r.memsz = 0
      · obtain ⟨s', hstep, hinv', -⟩ := refused_inv hinv (dltmmMalloc_empty hmemsz uninit)
        exact ⟨s', hstep, hinv'⟩
      · obtain ⟨s', hstep, hinv', -⟩ := @anywhere_plain _ hinv r uninit hmemsz hord (hfit hmemsz)
        exact ⟨s', hstep, hinv'⟩
  · intro s c s' hinv hord hfit hstep
    cases c with
    | free addr => exact absurd trivial hfit
    | malloc r uninit =>
      rw [Fitting, Classical.not_imp, not_forall] at hfit
      obtain ⟨hmemsz, p, hp⟩ := hfit
      obtain ⟨hbest, hno⟩ := Classical.not_imp.mp hp
      exact unfitting_not_tidy hinv hord hmemsz hbest hno hstep

/-- A request from the beginning of the pool, and its freeing. -/
theorem packets_tidy_front :
    Guarded tmmStep Relocatable (Tmm.start 0x1000 0x1000)
      [.malloc ⟨true, 0, 0x100, 8⟩ false, .free 0x1000] ∧
    Always tmmStep Tidy (Tmm.start 0x1000 0x1000)
      [.malloc ⟨true, 0, 0x100, 8⟩ false, .free 0x1000] := by
  have hcalls : Guarded tmmStep Relocatable (Tmm.start 0x1000 0x1000)
      [.malloc ⟨true, 0, 0x100, 8⟩ false, .free 0x1000] :=
    Guarded.cons rfl rfl (Guarded.cons ⟨_, mem_cons_self, rfl⟩ rfl trivial)
  refine ⟨hcalls, (packets_tidy_iff 0x1000 0x1000 (by decide) _ hcalls).mpr ?_⟩
  refine Guarded.cons ?_ rfl (Guarded.cons trivial rfl trivial)
  intro _ p hbest
  obtain rfl : p = 0 := hbest.unique ⟨0x1000, by decide⟩
  exact ⟨rfl, .inr rfl⟩

/-- The padding before an aligned packet is in no list: a request for it fails though nothing is
allocated there. -/
theorem packets_not_tidy :
    Guarded tmmStep Relocatable (Tmm.start 0x1004 0x104) [.malloc ⟨true, 0, 0x100, 8⟩ false] ∧
    (∃ s m', run tmmStep (Tmm.start 0x1004 0x104) [.malloc ⟨true, 0, 0x100, 8⟩ false] = some s ∧
      dltmmMalloc s.mem ⟨true, 0, 4, 1⟩ false = some (none, m') ∧ s.FreeInterval 0x1004 4) ∧
    ¬ Always tmmStep Tidy (Tmm.start 0x1004 0x104) [.malloc ⟨true, 0, 0x100, 8⟩ false] := by
  have hlost : ∃ s m', run tmmStep (Tmm.start 0x1004 0x104) [.malloc ⟨true, 0, 0x100, 8⟩ false] =
      some s ∧ dltmmMalloc s.mem ⟨true, 0, 4, 1⟩ false = some (none, m') ∧
        s.FreeInterval 0x1004 4 :=
    ⟨_, _, rfl, rfl, by decide⟩
  refine ⟨Guarded.cons rfl rfl trivial, hlost, ?_⟩
  intro h
  obtain ⟨s, m', hrun, hfail, hfree⟩ := hlost
  obtain ⟨t, ht, htidy⟩ := h.last
  cases hrun.symm.trans ht
  exact htidy.finds 4 false m' (by decide) hfail 0x1004 hfree

end Omap4Hal.Elfload

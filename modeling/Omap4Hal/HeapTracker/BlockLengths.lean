import Mathlib.Algebra.Group.Int.Defs
import Omap4Hal.HeapTracker.Tracker

/- The lengths that the wrapped functions of heaptracker.c ask the real allocator for. The lengths
   of header and trailer are added to the caller's size in 32 bits, after the multiplication of
   calloc; nothing looks at a sum that wraps. Here the real allocator is a function of the length,
   which it may refuse, and the calls return also where their writes go beyond the block. Where
   nothing wraps the calls are those of `Tracker` (`wrapMalloc_eq`, `resized_eq`).

   `allocation_covered_iff` has the sizes for which a block is large enough. -/
namespace Omap4Hal.HeapTracker
open Function (update)

/-! ## The calls -/

/-- What a call returns, and the block of the real allocator: its address and the length that was
asked for. -/
structure Answer where
  ptr : UInt32
  block : Option (UInt32 × UInt32)
  tracker : Tracker

/-- `sizeof(struct hdr) + size + sizeof(struct ftr)`. -/
def blockLen (size : UInt32) : UInt32 := hdrLen + size + ftrLen

/-- A block that the real allocator has given is tracked. -/
def tracked (t : Tracker) (hdr size : UInt32) : Answer where
  ptr := user hdr
  block := some (hdr, blockLen size)
  tracker := add { t with owned := update t.owned hdr true } hdr size

def wrapMalloc (t : Tracker) (size : UInt32) (real : UInt32 → Option UInt32) : Answer :=
  match real (blockLen size) with
  | none => ⟨0, none, t⟩
  | some hdr => tracked t hdr size

/-- `__wrap_calloc`: the count is converted to unsigned. -/
def wrapCalloc (t : Tracker) (nmemb : Int32) (size : UInt32) (real : UInt32 → Option UInt32) :
    Answer :=
  wrapMalloc t (nmemb.toUInt32 * size) real

/-- `__real_realloc` of a header. -/
def resized (t : Tracker) (hdr size : UInt32) (real : UInt32 → Option UInt32) : Answer :=
  match real (blockLen size) with
  | none => ⟨0, none, t⟩
  | some a => tracked (if a = hdr then t else release t hdr) a size

def wrapRealloc (t : Tracker) (ptr size : UInt32) (real : UInt32 → Option UInt32) : Option Answer :=
  if size = 0 then (free t ptr).map fun t => ⟨0, none, t⟩
  else if ptr = 0 then some (wrapMalloc t size real)
  else
    match del t (metaOf ptr) with
    | some t => some (resized t (metaOf ptr) size real)
    | none =>
      if t.mem.tag (metaOf ptr) = backlogTag then
        some (resized (delFromBacklog t (metaOf ptr)) (metaOf ptr) size real)
      -- a whole new block of the bare size
      else
        match real size with
        | none => some ⟨0, none, t⟩
        | some a => some ⟨a, some (a, size), t⟩

/-! ## The calls where nothing wraps -/

theorem wrapMalloc_eq {t : Tracker} {size : UInt32} {real : UInt32 → Option UInt32}
    (hfits : Fits size) (hfresh : ∀ a, real (blockLen size) = some a → Fresh t a) :
    malloc t size (real (blockLen size)) =
      some ((wrapMalloc t size real).ptr, (wrapMalloc t size real).tracker) := by
  rw [wrapMalloc]
  cases hreal : real (blockLen size) with
  | none => rfl
  | some hdr =>
    rw [malloc, if_pos (hfresh hdr hreal), track, if_pos hfits]
    rfl

theorem resized_eq {t : Tracker} {hdr size : UInt32} {real : UInt32 → Option UInt32}
    (hfits : Fits size) (hown : t.owned hdr = true)
    (hfresh : ∀ a, real (blockLen size) = some a → a = hdr ∨ Fresh t a) :
    resize t hdr size (real (blockLen size)) =
      some ((resized t hdr size real).ptr, (resized t hdr size real).tracker) := by
  have howned : ¬ t.owned hdr = false := by rw [hown]; exact Bool.noConfusion
  rw [resized]
  cases hreal : real (blockLen size) with
  | none => rw [resize, if_neg howned]
  | some a =>
    rw [resize, if_neg howned]
    dsimp only
    by_cases ha : a = hdr
    · rw [if_pos ha, if_pos ha, track, if_pos hfits]
      rfl
    · rw [if_neg ha, if_neg ha, if_pos ((hfresh a hreal).resolve_left ha), track, if_pos hfits]
      rfl

/-! ## What a block has to cover -/

/-- The real allocator gives blocks inside the address space, and not at 0. -/
def Grants (real : UInt32 → Option UInt32) : Prop :=
  ∀ len a, real len = some a → a ≠ 0 ∧ a.toNat + len.toNat ≤ 2 ^ 32

/-- The block has the header, `n` bytes from the pointer on and the trailer, and the header has the
number. -/
structure CoveredBy (x : Answer) (n : Int) (hdr len : UInt32) : Prop where
  block : x.block = some (hdr, len)
  header : hdr.toNat + hdrLen.toNat = x.ptr.toNat
  trailer : (x.ptr.toNat : Int) + n + ftrLen.toNat ≤ hdr.toNat + len.toNat
  inside : hdr.toNat + len.toNat ≤ 2 ^ 32
  recorded : ((x.tracker.mem.size hdr).toNat : Int) = n

/-- A pointer that is returned is that of such a block. -/
def Covered (x : Answer) (n : Int) : Prop := x.ptr ≠ 0 → ∃ hdr len, CoveredBy x n hdr len

theorem covered_null {t : Tracker} {block : Option (UInt32 × UInt32)} (n : Int) :
    Covered ⟨0, block, t⟩ n := fun h => absurd rfl h

section Sizes

variable {t : Tracker} {hdr size : UInt32} {n : Int}

theorem add_size (t : Tracker) (hdr size : UInt32) : (add t hdr size).mem.size hdr = size := by
  have haddTo : ∀ (m : Mem) (e : Ends), (addTo m e hdr).1.size = m.size := by
    intro m e
    rw [addTo_eq]
  rw [add]
  dsimp only
  rw [haddTo]
  exact Function.update_self (β := fun _ => UInt32) hdr size t.mem.size

theorem hdrLen_toNat : hdrLen.toNat = 160 := rfl
theorem ftrLen_toNat : ftrLen.toNat = 16 := rfl

theorem blockLen_toNat (size : UInt32) : (blockLen size).toNat = (176 + size.toNat) % 2 ^ 32 := by
  rw [blockLen, UInt32.toNat_add, UInt32.toNat_add, hdrLen_toNat, ftrLen_toNat]
  omega

theorem tracked_covered (hfits : Fits size) (hinside : hdr.toNat + (blockLen size).toNat ≤ 2 ^ 32) :
    Covered (tracked t hdr size) size.toNat := by
  intro _
  rw [Fits, hdrLen_toNat, ftrLen_toNat] at hfits
  have hlen := blockLen_toNat size
  have hptr : (user hdr).toNat = hdr.toNat + 160 := by
    rw [user, UInt32.toNat_add, hdrLen_toNat]
    omega
  refine ⟨hdr, blockLen size, rfl, hptr.symm, ?_, hinside, ?_⟩
  · rw [tracked, hptr, ftrLen_toNat]
    omega
  · rw [tracked, add_size]

theorem CoveredBy.fits (h : CoveredBy (tracked t hdr size) n hdr (blockLen size)) :
    n = size.toNat ∧ Fits size := by
  have hn : n = size.toNat := by
    rw [← h.recorded, tracked, add_size]
  refine ⟨hn, ?_⟩
  have htrailer := h.trailer
  have hheader := h.header
  have hlen := blockLen_toNat size
  have hlt := size.toNat_lt
  rw [hdrLen_toNat] at hheader
  rw [ftrLen_toNat] at htrailer
  rw [Fits, hdrLen_toNat, ftrLen_toNat]
  omega

/-- An allocator with room for every length. -/
def lowest (_ : UInt32) : Option UInt32 := some 1

theorem lowest_grants : Grants lowest := by
  intro len a h
  cases h
  have hlt := len.toNat_lt
  have hone : (1 : UInt32).toNat = 1 := rfl
  exact ⟨by decide, by omega⟩

theorem tracked_lowest (h : Covered (tracked t 1 size) n) : n = size.toNat ∧ Fits size := by
  have hptr : user 1 ≠ 0 := by decide
  obtain ⟨hdr, len, hby⟩ := h hptr
  have hblock := hby.block
  cases hblock
  exact hby.fits

end Sizes

/-! ## The sizes -/

/-- The old pointer of a realloc is NULL, or what stands in front of it has one of the tags. -/
def Known (t : Tracker) (ptr : UInt32) : Prop :=
  ptr = 0 ∨ t.mem.tag (metaOf ptr) = allocationTag ∨ t.mem.tag (metaOf ptr) = backlogTag

section Covering

variable {t : Tracker} {ptr size : UInt32} {n : Int}

theorem wrapMalloc_covered_iff :
    (∀ real, Grants real → Covered (wrapMalloc t size real) n) ↔ n = size.toNat ∧ Fits size := by
  refine ⟨fun h => tracked_lowest (h lowest lowest_grants), ?_⟩
  rintro ⟨rfl, hfits⟩ real hreal
  rw [wrapMalloc]
  cases hgiven : real (blockLen size) with
  | none => exact covered_null _
  | some hdr => exact tracked_covered hfits (hreal _ _ hgiven).2

theorem resized_covered_iff {hdr : UInt32} :
    (∀ real, Grants real → Covered (resized t hdr size real) n) ↔
      n = size.toNat ∧ Fits size := by
  refine ⟨fun h => tracked_lowest (h lowest lowest_grants), ?_⟩
  rintro ⟨rfl, hfits⟩ real hreal
  rw [resized]
  cases hgiven : real (blockLen size) with
  | none => exact covered_null _
  | some a => exact tracked_covered hfits (hreal _ _ hgiven).2

theorem product_iff (nmemb : Int32) (size : UInt32) :
    nmemb.toInt * size.toNat = ((nmemb.toUInt32 * size).toNat : Int) ∧
        Fits (nmemb.toUInt32 * size) ↔
      0 ≤ nmemb.toInt * size.toNat ∧ nmemb.toInt * size.toNat + 176 < 2 ^ 32 := by
  have hword : ((nmemb.toUInt32 * size).toNat : Int) = (nmemb.toInt * size.toNat) % 2 ^ 32 := by
    have hcount : (nmemb.toUInt32.toNat : Int) = nmemb.toInt % 2 ^ 32 := by
      have htoInt : nmemb.toInt = nmemb.toBitVec.toInt := rfl
      have htoNat : nmemb.toUInt32.toNat = nmemb.toBitVec.toNat := rfl
      have hlt := nmemb.toUInt32.toNat_lt
      rw [htoInt, BitVec.toInt_eq_toNat_cond, ← htoNat]
      split <;> omega
    have hmod : (nmemb.toInt % 2 ^ 32 * size.toNat) % 2 ^ 32 =
        (nmemb.toInt * size.toNat) % 2 ^ 32 := by
      rw [Int.mul_emod, Int.emod_emod, ← Int.mul_emod]
    rw [UInt32.toNat_mul, ← hmod, ← hcount, Int.natCast_emod, Int.natCast_mul]
    rfl
  have hfits : Fits (nmemb.toUInt32 * size) ↔
      ((nmemb.toUInt32 * size).toNat : Int) + 176 < 2 ^ 32 := by
    rw [Fits, hdrLen_toNat, ftrLen_toNat]
    omega
  rw [hfits, hword]
  generalize nmemb.toInt * size.toNat = n
  omega

theorem wrapRealloc_covered_iff :
    (∀ real x, Grants real → wrapRealloc t ptr size real = some x → Covered x size.toNat) ↔
      size = 0 ∨ Known t ptr ∧ Fits size := by
  by_cases hzero : size = 0
  · refine iff_of_true (fun real x _ hx => ?_) (Or.inl hzero)
    rw [wrapRealloc, if_pos hzero, Option.map_eq_some_iff] at hx
    obtain ⟨u, -, rfl⟩ := hx
    exact covered_null _
  · rw [or_iff_right hzero]
    -- a call that is one of a new block, or of a known one
    have hsame : ∀ {f : (UInt32 → Option UInt32) → Answer}, Known t ptr →
        (∀ real, wrapRealloc t ptr size real = some (f real)) →
        ((∀ real, Grants real → Covered (f real) size.toNat) ↔
          (size.toNat : Int) = size.toNat ∧ Fits size) →
        ((∀ real x, Grants real → wrapRealloc t ptr size real = some x → Covered x size.toNat) ↔
          Known t ptr ∧ Fits size) := by
      intro f hknown hcall hiff
      rw [and_iff_right hknown]
      refine Iff.trans (forall_congr' fun real => ?_) (hiff.trans (and_iff_right rfl))
      refine ⟨fun h hreal => h _ hreal (hcall real), fun h x hreal hx => ?_⟩
      cases (hcall real).symm.trans hx
      exact h hreal
    by_cases hnull : ptr = 0
    · refine hsame (Or.inl hnull) (fun real => ?_) (wrapMalloc_covered_iff (t := t))
      rw [wrapRealloc, if_neg hzero, if_pos hnull]
    · by_cases htag : t.mem.tag (metaOf ptr) = allocationTag
      · obtain ⟨t', hdel⟩ : ∃ t', del t (metaOf ptr) = some t' := ⟨_, if_neg (not_not.mpr htag)⟩
        refine hsame (f := resized t' (metaOf ptr) size) (Or.inr (Or.inl htag)) (fun real => ?_)
          resized_covered_iff
        rw [wrapRealloc, if_neg hzero, if_neg hnull, hdel]
      · have hdel : del t (metaOf ptr) = none := if_pos htag
        by_cases hfreed : t.mem.tag (metaOf ptr) = backlogTag
        · refine hsame (f := resized (delFromBacklog t (metaOf ptr)) (metaOf ptr) size)
            (Or.inr (Or.inr hfreed)) (fun real => ?_) resized_covered_iff
          rw [wrapRealloc, if_neg hzero, if_neg hnull, hdel]
          exact if_pos hfreed
        · refine iff_of_false (fun h => ?_) fun h => ?_
          · have hcall : wrapRealloc t ptr size lowest = some ⟨1, some (1, size), t⟩ := by
              rw [wrapRealloc, if_neg hzero, if_neg hnull, hdel]
              exact if_neg hfreed
            have hone : (1 : UInt32) ≠ 0 := by decide
            obtain ⟨hdr, len, hby⟩ := h lowest _ lowest_grants hcall hone
            have hblock := hby.block
            cases hblock
            have hheader : 1 + hdrLen.toNat = 1 := hby.header
            exact absurd hheader (by decide)
          · rcases h.1 with h | h | h
            · exact hnull h
            · exact htag h
            · exact hfreed h

end Covering

/-- For all allocators the blocks are large enough if the whole length does not wrap: of malloc, of
calloc with the product in whole numbers, and of realloc, which also has to know the old pointer. -/
theorem allocation_covered_iff (t : Tracker) :
    (∀ size, (∀ real, Grants real → Covered (wrapMalloc t size real) size.toNat) ↔
      size.toNat + 176 < 2 ^ 32) ∧
    (∀ nmemb size, (∀ real, Grants real →
        Covered (wrapCalloc t nmemb size real) (nmemb.toInt * size.toNat)) ↔
      0 ≤ nmemb.toInt * size.toNat ∧ nmemb.toInt * size.toNat + 176 < 2 ^ 32) ∧
    (∀ ptr size, (∀ real x, Grants real → wrapRealloc t ptr size real = some x →
        Covered x size.toNat) ↔
      size = 0 ∨ Known t ptr ∧ size.toNat + 176 < 2 ^ 32) := by
  have hfits : ∀ size, Fits size ↔ size.toNat + 176 < 2 ^ 32 := by
    intro size
    rw [Fits, hdrLen_toNat, ftrLen_toNat]
    omega
  refine ⟨fun size => ?_, fun nmemb size => ?_, fun ptr size => ?_⟩
  · rw [wrapMalloc_covered_iff, hfits, and_iff_right rfl]
  · rw [← product_iff]
    exact wrapMalloc_covered_iff
  · rw [wrapRealloc_covered_iff, hfits]

/-- A malloc of 16 bytes less than 4 GiB asks for 160 bytes, and returns a pointer to their end. -/
theorem malloc_wrapped :
    Grants (fun len => if len = 160 then some 0x40000008 else none) ∧
      ¬ ∀ t size real, Grants real → Covered (wrapMalloc t size real) size.toNat := by
  have hgrants : Grants (fun len => if len = 160 then some 0x40000008 else none) := by
    intro len a h
    dsimp only at h
    split at h
    next hlen =>
      subst hlen
      cases h
      exact ⟨by decide, by decide⟩
    next => cases h
  refine ⟨hgrants, fun hall => ?_⟩
  let t : Tracker := { mem := ⟨fun _ => 0, fun _ => none, fun _ => none, fun _ => 0⟩ }
  have hptr : user 0x40000008 ≠ 0 := by decide
  obtain ⟨hdr, len, hby⟩ := hall t 0xFFFFFFF0 _ hgrants hptr
  have hblock := hby.block
  cases hblock
  exact absurd hby.fits.2 (by decide)

end Omap4Hal.HeapTracker

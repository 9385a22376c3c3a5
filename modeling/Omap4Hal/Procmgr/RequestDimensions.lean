import Omap4Hal.Procmgr.MemUtils
import Omap4Hal.Tiler.BlockLayout

/- The dimensions of a remote request on their way to the allocator. `SysLinkMemUtils_alloc` copies
   the width, the height and the length of each buffer into its block, in this order, and the length
   shares the word of the other two: what the allocator gets is the length, for every format. What
   is mapped afterwards is the size of the blocks that the allocator was given, so a request keeps
   its dimensions if its lengths spell them (`alloc_dimensions_iff`). -/
namespace Omap4Hal.Procmgr.MemUtils
open Lib
open Omap4Hal.Tiler (TilerFmt TilerBlockInfo BlockArray CreateEnv CreateResult MemMgr Reachable
  memMgrAlloc tilerSize defSize strideOf errNone checkBlock checkBlocks tilerAlloc
  alloc_created infos_getElem? fillPtrs_ptr checkBlocksFrom_ok)

/-! ## The blocks of a request -/

/-- `pixel_fmt_t` as the allocator reads it. -/
def tilerFmt (pixelFormat : UInt32) : TilerFmt :=
  if pixelFormat = 0 then .none
  else if pixelFormat = 1 then .bit8
  else if pixelFormat = 2 then .bit16
  else if pixelFormat = 3 then .bit32
  else if pixelFormat = 4 then .page
  else .invalid

/-- The allocator casts `struct MemAllocBlock` to `struct tiler_block_info`. -/
def MemAllocBlock.toTiler (b : MemAllocBlock) : TilerBlockInfo :=
  { fmt := tilerFmt b.pixelFormat, dim := b.dim, stride := b.stride, ptr := b.ptr, ssptr := 0 }

def AllocParams.Is2D (p : AllocParams) : Prop :=
  p.pixelFormat = 1 ∨ p.pixelFormat = 2 ∨ p.pixelFormat = 3

instance (p : AllocParams) : Decidable p.Is2D := inferInstanceAs (Decidable (_ ∨ _ ∨ _))

/-- The block that the request describes: `dim` has the length, or the width and the height. -/
def requested (p : AllocParams) : MemAllocBlock :=
  { pixelFormat := p.pixelFormat
    dim :=
      if p.pixelFormat = pixelFmtPage then p.length
      else setHeight (setWidth 0 p.width.toUInt16) p.height.toUInt16 }

/-- What `SysLinkMemUtils_alloc` passes to `MemMgr_Alloc`. -/
def handed (args : List AllocParams) : BlockArray where
  blks := (args.map packBlock).map MemAllocBlock.toTiler
  numBlocks := args.length
  enough := by simp

/-- The reply of `MemMgr_Alloc` among those of the call. -/
def AllocReply.over (r : AllocReply) (c : CreateResult) : AllocReply :=
  { r with
    ptr := c.ret
    filled := fun i => (c.blks[i]?.map fun b => (b.stride, b.ptr)).getD (0, 0) }

/-- `mpuAddrList[0].size`. -/
def mappedSize (args : List AllocParams) (r : AllocReply) : UInt32 :=
  bufferSize (fillBlocks r.filled (args.map packBlock))

/-- The block has the format and the dimensions of the request. -/
structure RightBlock (p : AllocParams) (b : TilerBlockInfo) : Prop where
  fmt : b.fmt = tilerFmt p.pixelFormat
  len : p.pixelFormat = pixelFmtPage → b.len = p.length
  area : p.Is2D → b.width.toNat = p.width.toNat ∧ b.height.toNat = p.height.toNat

/-- Every block that is handed to the allocator is right, and a buffer that it creates for them, in
any state and whatever the driver answers, is mapped with the size that the request describes. -/
structure KeepsDimensions (args : List AllocParams) : Prop where
  blocks : ∀ (i : Nat) p b, args[i]? = some p → (handed args).work[i]? = some b → RightBlock p b
  size : ∀ (m : MemMgr) (e : CreateEnv) (c : CreateResult) (r : AllocReply), Reachable m →
    memMgrAlloc m (handed args) e = some c → c.ret ≠ 0 →
    mappedSize args (r.over c) = tilerSize (args.map fun p => (requested p).toTiler)

/-! ## The shared word -/

section Word

variable {dim : UInt32} {width height : UInt16}

theorem area_toNat (width height : UInt16) :
    (setHeight (setWidth 0 width) height).toNat = 65536 * height.toNat + width.toNat := by
  have hwidth : width.toNat < 2 ^ 16 := width.toNat_lt
  have hheight := height.toNat_lt
  have hlow : setWidth 0 width = width.toUInt32 := by
    rw [setWidth, UInt32.zero_and, UInt32.zero_or]
  have hmask : (width.toUInt32 &&& (0xffff : UInt32)).toNat = width.toNat := by
    rw [UInt32.toNat_and, UInt16.toNat_toUInt32]
    exact (Nat.and_two_pow_sub_one_eq_mod width.toNat 16).trans (Nat.mod_eq_of_lt hwidth)
  have hshift : (16 : UInt32).toNat % 32 = 16 := rfl
  rw [setHeight, hlow, UInt32.toNat_or, hmask, UInt32.toNat_shiftLeft, UInt16.toNat_toUInt32,
    hshift, Nat.shiftLeft_eq, Nat.mod_eq_of_lt (by omega), Nat.mul_comm, Nat.or_comm]
  exact (Nat.two_pow_add_eq_or_of_lt hwidth _).symm

theorem heightOf_toNat (dim : UInt32) : (heightOf dim).toNat = dim.toNat / 65536 := by
  have hlt := dim.toNat_lt
  have hshift : (16 : UInt32).toNat % 32 = 16 := rfl
  rw [heightOf, UInt32.toNat_toUInt16, UInt32.toNat_shiftRight, hshift, Nat.shiftRight_eq_div_pow]
  omega

/-- The length spells the width and the height. -/
def Spells (p : AllocParams) : Prop :=
  p.width.toNat < 65536 ∧ p.length.toNat = 65536 * p.height.toNat + p.width.toNat

theorem spells_iff (p : AllocParams) :
    Spells p ↔ p.length.toUInt16.toNat = p.width.toNat ∧
      (heightOf p.length).toNat = p.height.toNat := by
  have hlength := p.length.toNat_lt
  rw [Spells, heightOf_toNat, UInt32.toNat_toUInt16]
  omega

theorem Spells.dim_eq {p : AllocParams} (h : Spells p) :
    setHeight (setWidth 0 p.width.toUInt16) p.height.toUInt16 = p.length := by
  obtain ⟨hwidth, hlength⟩ := h
  have hlt := p.length.toNat_lt
  apply UInt32.toNat_inj.mp
  rw [area_toNat, UInt32.toNat_toUInt16, UInt32.toNat_toUInt16, hlength]
  omega

end Word

/-! ## The blocks that are handed over -/

section Handed

variable {args : List AllocParams} {p : AllocParams}

@[simp] theorem packBlock_pixelFormat (p : AllocParams) :
    (packBlock p).pixelFormat = p.pixelFormat := rfl

@[simp] theorem packBlock_dim (p : AllocParams) : (packBlock p).dim = p.length := rfl

theorem handed_work (args : List AllocParams) :
    (handed args).work = (args.map packBlock).map MemAllocBlock.toTiler := by
  rw [BlockArray.work, handed]
  apply List.take_of_length_le
  simp

theorem rightBlock_iff (p : AllocParams) :
    RightBlock p (packBlock p).toTiler ↔ (p.Is2D → Spells p) := by
  rw [spells_iff]
  exact ⟨fun h => h.area, fun h => ⟨rfl, fun _ => rfl, h⟩⟩

theorem tilerFmt_eq_page {pixelFormat : UInt32} :
    tilerFmt pixelFormat = .page ↔ pixelFormat = pixelFmtPage := by
  rw [tilerFmt, pixelFmtPage]
  by_cases hpage : pixelFormat = 4
  · subst hpage
    exact iff_of_true rfl rfl
  · refine iff_of_false ?_ hpage
    repeat' split
    all_goals first | contradiction | nofun

theorem is2D_of_fmt (hlow : 1 ≤ (tilerFmt p.pixelFormat).toInt)
    (hpage : p.pixelFormat ≠ pixelFmtPage) : p.Is2D := by
  rw [tilerFmt] at hlow
  split at hlow
  next => exact absurd hlow (by decide)
  split at hlow
  next h => exact Or.inl h
  split at hlow
  next h => exact Or.inr (Or.inl h)
  split at hlow
  next h => exact Or.inr (Or.inr h)
  split at hlow
  next h => exact absurd h hpage
  next => exact absurd hlow (by decide)

/-- The size of a block as `_SysLinkMemUtils_bufferSize` adds it up. -/
def blockBytes (b : MemAllocBlock) : UInt32 :=
  if b.pixelFormat = pixelFmtPage then b.dim else (heightOf b.dim).toUInt32 * b.stride

theorem bufferSize_eq (blocks : List MemAllocBlock) :
    bufferSize blocks = (blocks.map blockBytes).foldl (· + ·) 0 := by
  rw [bufferSize, List.foldl_map]
  congr 1
  funext size b
  rw [blockBytes]
  split <;> rfl

theorem tilerSize_eq (blks : List TilerBlockInfo) :
    tilerSize blks = (blks.map defSize).foldl (· + ·) 0 := by
  rw [tilerSize, List.foldl_map]

theorem toTiler_page {b : MemAllocBlock} :
    b.toTiler.fmt = .page ↔ b.pixelFormat = pixelFmtPage := tilerFmt_eq_page

theorem blockBytes_filled {b : MemAllocBlock} {stride ptr : UInt32}
    (hstride : b.pixelFormat ≠ pixelFmtPage → stride = strideOf b.toTiler) :
    blockBytes { b with stride, ptr } = defSize b.toTiler := by
  rw [blockBytes, defSize]
  by_cases hpage : b.pixelFormat = pixelFmtPage
  · rw [if_pos hpage, if_pos (toTiler_page.mpr hpage)]
    rfl
  · rw [if_neg hpage, if_neg (mt toTiler_page.mp hpage), hstride hpage]
    rfl

end Handed

/-! ## The buffer that is created -/

section Created

variable {args : List AllocParams} {m : MemMgr} {e : CreateEnv} {c : CreateResult}

theorem created_stride (hm : Reachable m) (hc : memMgrAlloc m (handed args) e = some c)
    (hret : c.ret ≠ 0) {i : Nat} {p : AllocParams} (hp : args[i]? = some p) :
    ∃ b, c.blks[i]? = some b ∧
      (p.pixelFormat ≠ pixelFmtPage → b.stride = strideOf (packBlock p).toTiler) := by
  obtain ⟨-, hloop, -, addr, -, -, hblks⟩ := alloc_created hm.sound hc hret
  have hlt : i < args.length := (List.getElem?_eq_some_iff.mp hp).1
  have hinfo : (e.infos (handed args))[i]? =
      some (tilerAlloc (packBlock p).toTiler (e.grant i)) := by
    rw [infos_getElem? hloop, handed_work, List.getElem?_map, List.getElem?_map, hp]
    rfl
  have hstride : p.pixelFormat ≠ pixelFmtPage →
      (tilerAlloc (packBlock p).toTiler (e.grant i)).stride = strideOf (packBlock p).toTiler := by
    intro hpage
    rw [tilerAlloc, if_pos]
    · rfl
    · exact mt toTiler_page.mp hpage
  have htake : (c.blks.take (handed args).numBlocks.toNat)[i]? = c.blks[i]? :=
    List.getElem?_take_of_lt (by simpa [handed] using hlt)
  rcases hblks with ⟨-, hfilled, -⟩ | ⟨-, hplain, -⟩
  · obtain ⟨q, hq, -⟩ := fillPtrs_ptr hinfo (e.bufPtr addr) 0
    rw [hfilled, hq] at htake
    exact ⟨_, htake.symm, hstride⟩
  · rw [hplain, hinfo] at htake
    exact ⟨_, htake.symm, hstride⟩

theorem mappedSize_created (hm : Reachable m) (hc : memMgrAlloc m (handed args) e = some c)
    (hret : c.ret ≠ 0) (r : AllocReply) :
    mappedSize args (r.over c) = tilerSize (handed args).work := by
  rw [mappedSize, bufferSize_eq, tilerSize_eq, handed_work]
  congr 1
  apply List.ext_getElem?
  intro i
  rw [fillBlocks, List.getElem?_map, List.getElem?_mapIdx, List.getElem?_map, List.getElem?_map,
    List.getElem?_map, List.getElem?_map]
  cases hp : args[i]? with
  | none => simp only [Option.map_none]
  | some p =>
    obtain ⟨b, hb, hstride⟩ := created_stride hm hc hret hp
    simp only [Option.map_some, AllocReply.over, hb, Option.getD_some]
    exact congrArg some (blockBytes_filled (b := packBlock p) hstride)

theorem created_fmt (hm : Reachable m) (hc : memMgrAlloc m (handed args) e = some c)
    (hret : c.ret ≠ 0) {p : AllocParams} (hp : p ∈ args) :
    1 ≤ (tilerFmt p.pixelFormat).toInt := by
  obtain ⟨hcheck, -⟩ := alloc_created hm.sound hc hret
  obtain ⟨i, hi⟩ := List.mem_iff_getElem?.mp hp
  have hb : (handed args).work[i]? = some (packBlock p).toTiler := by
    rw [handed_work, List.getElem?_map, List.getElem?_map, hi]
    rfl
  rw [checkBlocks] at hcheck
  split at hcheck
  next => exact absurd hcheck (by decide)
  have hone := checkBlocksFrom_ok hcheck hb
  rw [checkBlock] at hone
  split at hone
  next => exact absurd hone (by decide)
  next hfmt => exact Int.not_lt.mp (not_or.mp hfmt).1

/-- A request keeps its dimensions if the length of each of its 2D buffers spells them. -/
theorem alloc_dimensions_iff (args : List AllocParams) :
    KeepsDimensions args ↔ ∀ p ∈ args, p.Is2D → Spells p := by
  constructor
  · intro h p hp
    obtain ⟨i, hi⟩ := List.mem_iff_getElem?.mp hp
    apply (rightBlock_iff p).mp
    apply h.blocks i p _ hi
    rw [handed_work, List.getElem?_map, List.getElem?_map, hi]
    rfl
  · intro h
    refine ⟨fun i p b hi hb => ?_, fun m e c r hm hc hret => ?_⟩
    · rw [handed_work, List.getElem?_map, List.getElem?_map, hi] at hb
      cases hb
      exact (rightBlock_iff p).mpr (h p (List.mem_of_getElem? hi))
    · rw [mappedSize_created hm hc hret, handed_work, List.map_map]
      congr 1
      apply List.map_congr_left
      intro p hp
      have hdim : (packBlock p).dim = (requested p).dim := by
        rw [requested]
        split
        next => rfl
        next hpage => exact (h p hp (is2D_of_fmt (created_fmt hm hc hret hp) hpage)).dim_eq.symm
      rw [Function.comp_apply, MemAllocBlock.toTiler, MemAllocBlock.toTiler, hdim]
      rfl

end Created

/-- A QCIF picture of 8 bits; the length of a 2D buffer is not set. -/
def picture : AllocParams := { pixelFormat := 1, width := 176, height := 144, length := 0 }

/-- The allocator gets a block of width 0 and height 0, and refuses it. -/
theorem picture_flattened :
    (handed [picture]).work = [⟨.bit8, 0, 0, 0, 0⟩] ∧
      checkBlocks (handed [picture]).work 1 0 ≠ errNone ∧ ¬ KeepsDimensions [picture] := by
  refine ⟨rfl, by decide, fun h => ?_⟩
  have hwidth := ((h.blocks 0 picture _ rfl rfl).area (by decide)).1
  exact absurd hwidth (by decide)

end Omap4Hal.Procmgr.MemUtils

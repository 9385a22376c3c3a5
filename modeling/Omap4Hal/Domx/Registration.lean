import Omap4Hal.Domx.ReleaseRuns

/- What a failed registration leaves behind. `PROXY_UseBuffer` and `PROXY_AllocateBuffer` take
   up to six things and undo what they did at one label, which frees the two blocks of the
   header; that is enough for every failure before the remote call.

   From the remote call on it is not. An error of the transport, and `OMX_ErrorNoMore`, do not
   leave, so the buffer is stored and counted all the same; an error of the component leaves
   with the memory for the metadata still taken and noted in the slot; and when a buffer cannot
   be mapped the functions return at once, with the buffer registered on the remote side and,
   in `PROXY_AllocateBuffer`, in the table. `allOrNothing_iff` says that these are all. -/
namespace Omap4Hal.Domx
open Lib
open Deed

/-! ## What is required -/

/-- The builds: with ion, its buffers mapped or not, or with the TILER allocator. -/
inductive Build where
  | ion (bMapIonBuffers : Bool)
  | plain
  deriving DecidableEq, Repr

def Build.config : Build → Config
  | .ion bMapIonBuffers => ionSetup bMapIonBuffers
  | .plain => ⟨false, false, false⟩

/-- What a registration takes: the things of the log, and memory of the TILER allocator. -/
inductive Resource where
  | thing (t : Thing)
  | tiler (ptr : UInt32)
  deriving DecidableEq

def Deed.obtained : Deed → List Resource
  | .mem (.memMgrAlloc (some ptr)) => [.tiler ptr]
  | d => d.taken.map .thing

def Deed.released : Deed → List Resource
  | .mem (.memMgrFree ptr) => [.tiler ptr]
  | d => d.given.map .thing

/-- The component has taken the buffer. Neither function calls `RPC_FreeBuffer`. -/
def useRegisters (cfg : Config) (s : Proxy) (hasPtr : Bool) (e : UseEnv) : Bool :=
  match useChecks s hasPtr e with
  | .error _ => false
  | .ok _ => !(e.metaEnabled && !cfg.useIonBuild && e.metaAlloc.isNone) && e.answered

def allocRegisters (cfg : Config) (s : Proxy) (hasPtr metaPort : Bool) (nSizeBytes : UInt32)
    (e : AllocEnv) : Bool :=
  if hasPtr = false then false
  else match (allocMemory cfg metaPort (roundToPage nSizeBytes) e).1 with
    | .error _ => false
    | .ok _ => useRegisters cfg s true e.use

/-- The table is as before, everything taken was given back once, and the component has not
kept the buffer. -/
structure Undone (s st : Proxy) (deeds : List Deed) (registered : Bool) : Prop where
  slots : st.tBufList = s.tBufList
  allocated : st.nAllocatedBuffers = s.nAllocatedBuffers
  total : st.nTotalBuffers = s.nTotalBuffers
  released : Lib.Balanced (deeds.flatMap obtained) (deeds.flatMap Deed.released) []
  unregistered : registered = false

def UseAllOrNothing (cfg : Config) (s : Proxy) (hasPtr : Bool) (pBuffer : UInt32) (e : UseEnv) :
    Prop :=
  (proxyUseBuffer cfg s hasPtr pBuffer e).err ≠ .none →
    Undone s (proxyUseBuffer cfg s hasPtr pBuffer e).st (useDeeds cfg s hasPtr pBuffer e)
      (useRegisters cfg s hasPtr e)

def AllocAllOrNothing (cfg : Config) (s : Proxy) (hasPtr metaPort : Bool) (nSizeBytes : UInt32)
    (e : AllocEnv) : Prop :=
  (proxyAllocateBuffer cfg s hasPtr metaPort nSizeBytes e).err ≠ .none →
    Undone s (proxyAllocateBuffer cfg s hasPtr metaPort nSizeBytes e).st
      (allocDeeds cfg s hasPtr metaPort nSizeBytes e)
      (allocRegisters cfg s hasPtr metaPort nSizeBytes e)

/-! ## When it is met -/

/-- `PROXY_UseBuffer` gets as far as the remote call. -/
structure ReachesRemote (cfg : Config) (s : Proxy) (hasPtr : Bool) (e : UseEnv) : Prop where
  pointer : hasPtr = true
  room : s.nTotalBuffers < maxNumProxyBuffers
  header : s.malloc e.hdrAddr ≠ none
  platform : e.platOk = true
  stride : e.strideErr = .none
  numLines : e.nStride = linuxPageSize → e.numLinesErr = .none
  metaInfo : e.metaErr = .none
  metaMemory : cfg.useIonBuild = false → e.metaEnabled = true → e.metaAlloc ≠ none

/-- Either nothing fails from there on, or the component refuses the buffer, when nothing was
taken for metadata and the slot does not show that it was tried. -/
def UseClean (cfg : Config) (s : Proxy) (e : UseEnv) : Prop :=
  (e.rpc = .none ∧ e.comp = .none ∧
    (cfg.maps = true → e.metaEnabled = true → e.metaMap ≠ none)) ∨
  (e.rpc = .none ∧ e.comp ≠ .none ∧ e.comp ≠ .noMore ∧
    (e.metaEnabled = true → cfg.useIonBuild = true ∧ e.metaAlloc = none ∧
      (s.tBufList s.emptySlot).pMetaDataBuffer = 0))

/-- `PROXY_AllocateBuffer` has memory for the buffer. -/
structure GetsMemory (cfg : Config) (metaPort : Bool) (e : AllocEnv) : Prop where
  stride : e.strideErr = .none
  plane : e.nStride = linuxPageSize → metaPort = false →
    cfg.useIonBuild = false ∧ e.paramErr = .none
  memory : e.mem ≠ none

/-- The same for the registration inside, and the buffer is mapped where it should be. -/
def AllocClean (cfg : Config) (s : Proxy) (e : AllocEnv) : Prop :=
  UseClean cfg s e.use ∧ (e.use.comp = .none → cfg.maps = true → e.map ≠ none)

/-! ## Books of one call -/

@[simp] theorem obtained_mallocs (l : List Thing) :
    (l.map malloc).flatMap obtained = l.map .thing := by
  rw [List.flatMap_map, List.map_eq_flatMap]
  rfl

@[simp] theorem released_mallocs (l : List Thing) :
    (l.map malloc).flatMap Deed.released = [] := by
  rw [List.flatMap_map, List.flatMap_eq_nil_iff]
  exact fun _ _ => rfl

@[simp] theorem obtained_frees (l : List Thing) :
    (l.map free).flatMap obtained = [] := by
  rw [List.flatMap_map, List.flatMap_eq_nil_iff]
  exact fun _ _ => rfl

@[simp] theorem released_frees (l : List Thing) :
    (l.map free).flatMap Deed.released = l.map .thing := by
  rw [List.flatMap_map, List.map_eq_flatMap]
  rfl

theorem obtained_metaReqs (cfg : Config) (e : UseEnv) :
    ((useMetaReqs cfg e).map mem).flatMap obtained = [] ↔
      (e.metaEnabled = true → e.metaAlloc = none) := by
  cases hm : e.metaEnabled <;> cases hu : cfg.useIonBuild <;> cases ha : e.metaAlloc <;>
    simp [useMetaReqs, hm, hu, ha, obtained, Deed.taken]

theorem released_metaReqs (cfg : Config) (e : UseEnv) :
    ((useMetaReqs cfg e).map mem).flatMap Deed.released = [] := by
  cases hm : e.metaEnabled <;> cases hu : cfg.useIonBuild <;>
    simp [useMetaReqs, hm, hu, Deed.released, Deed.given]

variable {s : Proxy} {hasPtr : Bool} {e : UseEnv} {cfg : Config} {pBuffer : UInt32}

theorem useMallocs_fresh {t : Thing} (ht : t ∈ useMallocs s hasPtr e) : s.live t.owner = false := by
  unfold useMallocs at ht
  split at ht
  · simp at ht
  split at ht
  · simp at ht
  next p hp =>
  have hfresh := (malloc_eq_some hp).2
  split at ht
  · obtain rfl | rfl : t = .header p ∨ t = .platform p := by simpa using ht
    · exact hfresh
    · exact hfresh
  · obtain rfl : t = .header p := by simpa using ht
    exact hfresh

theorem useDeeds_balanced
    (hlive : ∀ q, (proxyUseBuffer cfg s hasPtr pBuffer e).st.live q = s.live q)
    (hreqs : ((proxyUseBuffer cfg s hasPtr pBuffer e).reqs.map mem).flatMap Deed.released = [])
    :
    Lib.Balanced ((useDeeds cfg s hasPtr pBuffer e).flatMap obtained)
        ((useDeeds cfg s hasPtr pBuffer e).flatMap Deed.released) [] ↔
      ((proxyUseBuffer cfg s hasPtr pBuffer e).reqs.map mem).flatMap obtained = [] := by
  have hfrees : ((useMallocs s hasPtr e).reverse.filter fun t =>
      !(proxyUseBuffer cfg s hasPtr pBuffer e).st.live t.owner) =
      (useMallocs s hasPtr e).reverse := by
    apply List.filter_eq_self.mpr
    intro t ht
    rw [hlive, useMallocs_fresh (List.mem_reverse.mp ht)]
    rfl
  simp only [useDeeds, hfrees, List.flatMap_append, obtained_mallocs, obtained_frees,
    released_mallocs, released_frees, hreqs, List.nil_append, List.append_nil]
  constructor
  · intro h
    have hlen := h.length_eq
    simp only [List.length_append, List.length_map, List.length_reverse, List.length_nil] at hlen
    exact List.length_eq_zero_iff.mp (by omega)
  · intro h
    rw [h, List.append_nil, Lib.Balanced, List.append_nil]
    exact (List.reverse_perm _).symm.map _

/-! ## `PROXY_UseBuffer` -/

theorem reachesRemote_iff :
    ReachesRemote cfg s hasPtr e ↔ (∃ p, useChecks s hasPtr e = .ok p) ∧
      (e.metaEnabled && !cfg.useIonBuild && e.metaAlloc.isNone) = false := by
  constructor
  · intro h
    obtain ⟨p, hp⟩ := Option.ne_none_iff_exists'.mp h.header
    refine ⟨⟨p, useChecks_eq_ok.mpr ⟨h.pointer, h.room, hp, h.platform, h.stride, h.numLines,
      h.metaInfo⟩⟩, ?_⟩
    cases hm : e.metaEnabled with
    | false => rfl
    | true =>
      cases hu : cfg.useIonBuild with
      | true => rfl
      | false => simpa [Option.isSome_iff_ne_none] using h.metaMemory hu hm
  · rintro ⟨⟨p, hp⟩, hmem⟩
    obtain ⟨hptr, hroom, hfound, hplat, hstride, hlines, hinfo⟩ := useChecks_eq_ok.mp hp
    have hheader : s.malloc e.hdrAddr ≠ none := by
      rw [hfound]
      exact Option.some_ne_none p
    refine ⟨hptr, hroom, hheader, hplat, hstride, hlines, hinfo, ?_⟩
    intro hu hm
    simpa [hu, hm, Option.isSome_iff_ne_none] using hmem

theorem useRegisters_eq (h : ReachesRemote cfg s hasPtr e) :
    useRegisters cfg s hasPtr e = e.answered := by
  obtain ⟨⟨p, hp⟩, hmem⟩ := reachesRemote_iff.mp h
  simp only [useRegisters, hp, hmem, Bool.not_false, Bool.true_and]

theorem undone_early (h : ¬ ReachesRemote cfg s hasPtr e) (pBuffer : UInt32) :
    Undone s (proxyUseBuffer cfg s hasPtr pBuffer e).st (useDeeds cfg s hasPtr pBuffer e)
      (useRegisters cfg s hasPtr e) := by
  cases hchk : useChecks s hasPtr e with
  | error err =>
    have heq : proxyUseBuffer cfg s hasPtr pBuffer e = ⟨s, err, none, none, []⟩ := by
      rw [proxyUseBuffer, hchk]
    refine ⟨by rw [heq], by rw [heq], by rw [heq], ?_, by rw [useRegisters, hchk]⟩
    exact (useDeeds_balanced (by rw [heq]; exact fun _ => rfl) (by rw [heq]; rfl)).mpr
      (by rw [heq]; rfl)
  | ok p =>
    -- the allocator of a build without ion has no memory for the metadata
    have hmem : (e.metaEnabled && !cfg.useIonBuild && e.metaAlloc.isNone) = true := by
      rw [← Bool.not_eq_false]
      exact fun hmem => h (reachesRemote_iff.mpr ⟨⟨p, hchk⟩, hmem⟩)
    have heq : proxyUseBuffer cfg s hasPtr pBuffer e =
        ⟨s, .insufficientResources, none, none, useMetaReqs cfg e⟩ := by
      simp only [proxyUseBuffer, hchk, hmem, if_true]
    simp only [Bool.and_eq_true, Option.isNone_iff_eq_none] at hmem
    refine ⟨by rw [heq], by rw [heq], by rw [heq], ?_, ?_⟩
    · refine (useDeeds_balanced (by rw [heq]; exact fun _ => rfl) ?_).mpr ?_
      · rw [heq]
        exact released_metaReqs cfg e
      · rw [heq]
        exact (obtained_metaReqs cfg e).mpr fun _ => hmem.2
    · simp only [useRegisters, hchk, hmem.1, hmem.2]
      rfl

theorem undone_refused (h : ReachesRemote cfg s hasPtr e) (hrpc : e.rpc = .none)
    (hcomp : e.comp ≠ .none) (hmore : e.comp ≠ .noMore) (pBuffer : UInt32) :
    (proxyUseBuffer cfg s hasPtr pBuffer e).err ≠ .none ∧
    (Undone s (proxyUseBuffer cfg s hasPtr pBuffer e).st (useDeeds cfg s hasPtr pBuffer e)
      (useRegisters cfg s hasPtr e) ↔ UseClean cfg s e) := by
  obtain ⟨⟨p, hp⟩, hmem⟩ := reachesRemote_iff.mp h
  have hexit := checkRpcError_exit.mpr ⟨hrpc, hcomp, hmore⟩
  have heq : proxyUseBuffer cfg s hasPtr pBuffer e = ⟨noteMetaData cfg s e,
      (checkRpcError e.rpc e.comp).1, none, none, useMetaReqs cfg e⟩ := by
    simp only [proxyUseBuffer, hp, hmem, hexit, if_true, Bool.false_eq_true, if_false]
  have hframe := noteMetaData_frame cfg s e
  have hans : e.answered = false := by simp [UseEnv.answered, hcomp]
  have hbooks : Lib.Balanced ((useDeeds cfg s hasPtr pBuffer e).flatMap obtained)
      ((useDeeds cfg s hasPtr pBuffer e).flatMap Deed.released) [] ↔
      (e.metaEnabled = true → e.metaAlloc = none) := by
    rw [useDeeds_balanced (by rw [heq]; exact noteMetaData_live cfg s e)
      (by rw [heq]; exact released_metaReqs cfg e), heq, obtained_metaReqs]
  refine ⟨by rw [heq]; exact fun hnone => hcomp (checkRpcError_none.mp hnone).2, ?_⟩
  rw [heq]
  constructor
  · intro hu
    refine .inr ⟨hrpc, hcomp, hmore, ?_⟩
    intro hm
    have hnone := hbooks.mp hu.released hm
    have hion : cfg.useIonBuild = true := by simpa [hm, hnone] using hmem
    refine ⟨hion, hnone, ?_⟩
    have hslot := congrArg (fun l => (l s.emptySlot).pMetaDataBuffer) hu.slots
    simpa [noteMetaData, hion, hm, useMetaData, hnone] using hslot.symm
  · intro hclean
    obtain ⟨-, hc, -⟩ | ⟨-, -, -, hmeta⟩ := hclean
    · exact absurd hc hcomp
    refine ⟨?_, hframe.alloc, hframe.total, hbooks.mpr fun hm => (hmeta hm).2.1, ?_⟩
    · by_cases hm : e.metaEnabled = true
      · obtain ⟨hion, hnone, hslot⟩ := hmeta hm
        have hsame : { s.tBufList s.emptySlot with pMetaDataBuffer := 0 } =
            s.tBufList s.emptySlot := by rw [← hslot]
        simp [noteMetaData, hion, hm, useMetaData, hnone, hsame, Proxy.setSlot]
      · simp [noteMetaData, hm]
    · rw [useRegisters_eq h, hans]

/-- The metadata buffer cannot be mapped: the header is neither stored nor freed. -/
theorem not_undone_leaked {p : UInt32} (hreach : ReachesRemote cfg s hasPtr e)
    (hp : useChecks s hasPtr e = .ok p) {h : BufHeader} {err : OmxError}
    (heq : proxyUseBuffer cfg s hasPtr pBuffer e =
      ⟨(noteMetaData cfg s e).setHeader p (some h), err, none, none,
        useMetaReqs cfg e ++ [.ionMap h.pMetaDataBuffer h.nMetaDataSize none]⟩)
    :
    ¬ Undone s (proxyUseBuffer cfg s hasPtr pBuffer e).st (useDeeds cfg s hasPtr pBuffer e)
      (useRegisters cfg s hasPtr e) := by
  intro hu
  have hmallocs : useMallocs s hasPtr e = [.header p, .platform p] := by
    simp [useMallocs, hreach.pointer, hreach.room, (useChecks_eq_ok.mp hp).2.2.1, hreach.platform]
  have hlive : (proxyUseBuffer cfg s hasPtr pBuffer e).st.live p = true := by
    rw [heq]
    simp [setHeader_live]
  have hdeeds : useDeeds cfg s hasPtr pBuffer e = [.malloc (.header p), .malloc (.platform p)] ++
      (useMetaReqs cfg e).map .mem ++ [.mem (.ionMap h.pMetaDataBuffer h.nMetaDataSize none)] := by
    simp [useDeeds, hmallocs, Thing.owner, hlive]
    simp [heq]
  have hbooks := hu.released.length_eq
  rw [hdeeds, List.flatMap_append, List.flatMap_append, List.flatMap_append, List.flatMap_append,
    released_metaReqs] at hbooks
  simp [obtained, Deed.released, Deed.taken, Deed.given] at hbooks

theorem useBuffer_iff (cfg : Config) (s : Proxy) (hasPtr : Bool) (pBuffer : UInt32) (e : UseEnv) :
    UseAllOrNothing cfg s hasPtr pBuffer e ↔ (ReachesRemote cfg s hasPtr e → UseClean cfg s e) := by
  by_cases hreach : ReachesRemote cfg s hasPtr e
  case neg => exact ⟨fun _ h => absurd h hreach, fun _ _ => undone_early hreach pBuffer⟩
  by_cases hexit : (checkRpcError e.rpc e.comp).2 = true
  · obtain ⟨hrpc, hcomp, hmore⟩ := checkRpcError_exit.mp hexit
    obtain ⟨herr, hiff⟩ := undone_refused hreach hrpc hcomp hmore pBuffer
    exact ⟨fun h _ => hiff.mp (h herr), fun h _ => hiff.mpr (h hreach)⟩
  obtain ⟨⟨p, hp⟩, hmem⟩ := reachesRemote_iff.mp hreach
  obtain ⟨hroom, hne, hfresh⟩ := useChecks_ok hp
  have heq : proxyUseBuffer cfg s hasPtr pBuffer e = useFinish cfg (noteMetaData cfg s e)
      s.emptySlot p pBuffer (checkRpcError e.rpc e.comp).1 e := by
    simp only [proxyUseBuffer, hp, hmem, hexit, Bool.false_eq_true, if_false]
  obtain ⟨r, hr⟩ : ∃ r, useFinish cfg (noteMetaData cfg s e) s.emptySlot p pBuffer
      (checkRpcError e.rpc e.comp).1 e = r := ⟨_, rfl⟩
  rcases useFinish_cases cfg p pBuffer _ e hne hfresh hroom hr with
    ⟨hmaps, hnomap, -, herr, -⟩ | ⟨hmapped, -, -, herr, hstores⟩
  · -- a plain return, with the buffer registered or not
    have hleak := not_undone_leaked hreach hp
      (heq.trans (by simp only [useFinish, hmaps, if_true, hnomap]; rfl))
    have hdirty : ¬ UseClean cfg s e := by
      obtain ⟨hm, hen⟩ : cfg.maps = true ∧ e.metaEnabled = true := by simpa using hmaps
      rintro (⟨-, -, hmap⟩ | ⟨hrpc, hcomp, hmore, -⟩)
      · exact hmap hm hen hnomap
      · exact hexit (checkRpcError_exit.mpr ⟨hrpc, hcomp, hmore⟩)
    constructor
    · intro h
      exact absurd (h (by rw [heq, hr]; exact herr)) hleak
    · intro h
      exact absurd (h hreach) hdirty
  · constructor
    · intro h _
      by_cases hnone : (checkRpcError e.rpc e.comp).1 = .none
      · obtain ⟨hrpc, hcomp⟩ := checkRpcError_none.mp hnone
        exact .inl ⟨hrpc, hcomp, fun hm hen => hmapped (by simp [hm, hen])⟩
      · -- stored and counted, with an error
        have hu := (h (by rw [heq, hr, herr]; exact hnone)).allocated
        rw [heq, hr, hstores.alloc] at hu
        omega
    · intro h herror
      rcases h hreach with ⟨hrpc, hcomp, -⟩ | ⟨hrpc, hcomp, hmore, -⟩
      · rw [heq, hr, herr] at herror
        exact absurd (checkRpcError_none.mpr ⟨hrpc, hcomp⟩) herror
      · exact absurd (checkRpcError_exit.mpr ⟨hrpc, hcomp, hmore⟩) hexit

/-! ## `PROXY_AllocateBuffer` -/

theorem allocMemory_cases (b : Build) (metaPort : Bool) (nSize : UInt32) (e : AllocEnv) :
    (GetsMemory b.config metaPort e ∧ ∃ ptr req, allocMemory b.config metaPort nSize e =
      (.ok ptr, [req]) ∧ Deed.released (.mem req) = [] ∧
      obtained (.mem req) = Deed.released (.mem (if b.config.useIonBuild then
        .ionFree ptr else .memMgrFree ptr))) ∨
    (¬ GetsMemory b.config metaPort e ∧ ∃ err reqs, err ≠ .none ∧
      allocMemory b.config metaPort nSize e = (.error err, reqs) ∧
      (reqs.map mem).flatMap obtained = [] ∧
      (reqs.map mem).flatMap Deed.released = []) := by
  by_cases hstride : e.strideErr = .none
  case neg =>
    refine .inr ⟨fun h => hstride h.stride, e.strideErr, [], hstride, ?_, rfl, rfl⟩
    simp [allocMemory, hstride]
  by_cases hplane : e.nStride = linuxPageSize ∧ metaPort = false ∧
      ¬ (b.config.useIonBuild = false ∧ e.paramErr = .none)
  case pos =>
    obtain ⟨hn, hport, hbad⟩ := hplane
    refine .inr ⟨fun h => hbad (h.plane hn hport), ?_⟩
    cases b with
    | ion m => exact ⟨.notImplemented, [], by simp, by simp [allocMemory, hstride, hn, hport,
        Build.config], rfl, rfl⟩
    | plain =>
      have herr : e.paramErr ≠ .none := fun h => hbad ⟨rfl, h⟩
      exact ⟨e.paramErr, [], herr, by simp [allocMemory, hstride, hn, hport, Build.config, herr],
        rfl, rfl⟩
  have hgets : e.mem ≠ none → GetsMemory b.config metaPort e :=
    fun hmem => ⟨hstride, fun hn hport => by_contra fun hbad => hplane ⟨hn, hport, hbad⟩, hmem⟩
  -- one request, which is answered or not
  have hreq : allocMemory b.config metaPort nSize e =
      (e.mem.elim (.error .insufficientResources) .ok,
        [if b.config.useIonBuild then .ionAlloc nSize e.mem else .memMgrAlloc e.mem]) := by
    cases b with
    | ion m =>
      have hno : ¬ (e.nStride = linuxPageSize ∧ metaPort = false) :=
        fun h => hplane ⟨h.1, h.2, by simp [Build.config]⟩
      cases hmem : e.mem <;> simp [allocMemory, hstride, hno, hmem, Build.config]
    | plain =>
      have hparam : e.nStride = linuxPageSize → metaPort = false → e.paramErr = .none :=
        fun hn hport => by_contra fun herr => hplane ⟨hn, hport, fun h => herr h.2⟩
      by_cases hn : e.nStride = linuxPageSize ∧ metaPort = false
      · cases hmem : e.mem <;>
          simp [allocMemory, hstride, hn, hmem, Build.config, hparam hn.1 hn.2]
      · cases hmem : e.mem <;> simp [allocMemory, hstride, hn, hmem, Build.config]
  cases hmem : e.mem with
  | none =>
    refine .inr ⟨fun h => h.memory hmem, .insufficientResources, _, by simp,
      by rw [hreq, hmem]; rfl, ?_, ?_⟩
    · cases hu : b.config.useIonBuild <;> simp [obtained, Deed.taken]
    · cases hu : b.config.useIonBuild <;> simp [Deed.released, Deed.given]
  | some ptr =>
    refine .inl ⟨hgets (by simp [hmem]), ptr, _, by rw [hreq, hmem]; rfl, ?_, ?_⟩
    · cases hu : b.config.useIonBuild <;> simp [Deed.released, Deed.given]
    · cases hu : b.config.useIonBuild <;>
        simp [obtained, Deed.released, Deed.taken, Deed.given]

theorem undone_wrapped {st : Proxy} {deeds : List Deed} {registered : Bool} {take give : Deed}
    (hgiven : take.released = []) (htaken : give.obtained = [])
    (hsame : take.obtained = give.released) :
    Undone s st ([take] ++ deeds ++ [give]) registered ↔ Undone s st deeds registered := by
  have hbooks : Lib.Balanced (([take] ++ deeds ++ [give]).flatMap obtained)
      (([take] ++ deeds ++ [give]).flatMap Deed.released) [] ↔
      Lib.Balanced (deeds.flatMap obtained) (deeds.flatMap Deed.released) [] := by
    simp only [List.flatMap_append, List.flatMap_singleton, hgiven, htaken, hsame, Lib.Balanced,
      List.nil_append, List.append_nil]
    rw [List.perm_comm, List.perm_append_comm.congr_left, List.perm_append_left_iff, List.perm_comm]
  exact ⟨fun h => ⟨h.slots, h.allocated, h.total, hbooks.mp h.released, h.unregistered⟩,
    fun h => ⟨h.slots, h.allocated, h.total, hbooks.mpr h.released, h.unregistered⟩⟩

theorem allocFinish_err (cfg : Config) (s : Proxy) (slot : Nat) (pMemptr nSize : UInt32)
    (u : UseResult) (e : AllocEnv) :
    (allocFinish cfg s slot pMemptr nSize u e).err ≠ .none ↔ cfg.maps = true ∧ e.map = none := by
  cases hm : cfg.maps <;> cases ha : e.map <;> simp [allocFinish, hm, ha]

@[simp] theorem allocFinish_allocated (cfg : Config) (s : Proxy) (slot : Nat)
    (pMemptr nSize : UInt32) (u : UseResult) (e : AllocEnv) :
    (allocFinish cfg s slot pMemptr nSize u e).st.nAllocatedBuffers = s.nAllocatedBuffers := by
  cases hm : cfg.maps <;> cases ha : e.map <;>
    simp [allocFinish, hm, ha, Proxy.setSlot, Proxy.setHeader]

theorem useBuffer_registered (h : (proxyUseBuffer cfg s hasPtr pBuffer e).err = .none) :
    ReachesRemote cfg s hasPtr e ∧ e.rpc = .none ∧ e.comp = .none ∧
      (proxyUseBuffer cfg s hasPtr pBuffer e).st.nAllocatedBuffers = s.nAllocatedBuffers + 1 := by
  cases proxyUseBuffer_outcome cfg s hasPtr pBuffer e with
  | refused hok herr hst hframe => exact absurd h herr
  | dangling p hbad herr hst => exact absurd h herr
  | stored p hok herr hhdr hstored hst hreach hans =>
    have hcomp : e.rpc = .none ∧ e.comp = .none := by simpa [UseEnv.answered] using hans
    exact ⟨reachesRemote_iff.mpr ⟨hreach.1, hreach.2.1⟩, hcomp.1, hcomp.2, hst.alloc⟩

theorem useBuffer_succeeds (hreach : ReachesRemote cfg s hasPtr e) (hclean : UseClean cfg s e)
    (hcomp : e.comp = .none) (pBuffer : UInt32) :
    (proxyUseBuffer cfg s hasPtr pBuffer e).err = .none := by
  obtain ⟨hrpc, -, hmap⟩ | ⟨-, hne, -⟩ := hclean
  case inr => exact absurd hcomp hne
  have hchecks := reachesRemote_iff.mp hreach
  have hstore : reachesStore cfg s hasPtr e :=
    ⟨hchecks.1, hchecks.2, by simpa using hmap⟩
  by_contra herr
  have hundo := (useBuffer_iff cfg s hasPtr pBuffer e).mpr (fun _ => .inl ⟨hrpc, hcomp, hmap⟩) herr
  have hans : e.answered = true := by simp [UseEnv.answered, hrpc, hcomp]
  have hno := hundo.unregistered
  rw [useRegisters_eq hreach, hans] at hno
  cases hno

theorem allocateBuffer_iff (b : Build) (s : Proxy) (hasPtr metaPort : Bool) (nSizeBytes : UInt32)
    (e : AllocEnv) : AllocAllOrNothing b.config s hasPtr metaPort nSizeBytes e ↔
      (hasPtr = true → GetsMemory b.config metaPort e → ReachesRemote b.config s true e.use →
        AllocClean b.config s e) := by
  cases hasPtr with
  | false =>
    refine ⟨fun _ h => by simp at h, fun _ _ => ?_⟩
    exact ⟨rfl, rfl, rfl, List.Perm.refl [], rfl⟩
  | true =>
  rcases allocMemory_cases b metaPort (roundToPage nSizeBytes) e with
    ⟨hgets, ptr, req, hmem, hgiven, hsame⟩ | ⟨hno, err, reqs, herr, hmem, htaken, hgiven⟩
  case inr =>
    -- no memory, and nothing taken
    refine ⟨fun _ _ h => absurd h hno, fun _ _ => ?_⟩
    have heq : proxyAllocateBuffer b.config s true metaPort nSizeBytes e =
        ⟨s, err, none, none, none, reqs⟩ := by simp [proxyAllocateBuffer, hmem]
    have hdeeds : allocDeeds b.config s true metaPort nSizeBytes e = reqs.map .mem := by
      simp [allocDeeds, hmem]
    rw [heq, hdeeds]
    refine ⟨rfl, rfl, rfl, ?_, by simp [allocRegisters, hmem]⟩
    rw [htaken, hgiven]
    exact List.Perm.refl []
  have huse := useBuffer_iff b.config s true ptr e.use
  have hreg : allocRegisters b.config s true metaPort nSizeBytes e =
      useRegisters b.config s true e.use := by simp [allocRegisters, hmem]
  by_cases hu : (proxyUseBuffer b.config s true ptr e.use).err = .none
  · -- registered; the mapping comes last
    obtain ⟨hreach, hrpc, hcomp, hcount⟩ := useBuffer_registered hu
    have hclean := huse.mp (fun herr => absurd hu herr) hreach
    have herr : (proxyAllocateBuffer b.config s true metaPort nSizeBytes e).err ≠ .none ↔
        b.config.maps = true ∧ e.map = none := by
      rw [← allocFinish_err b.config (proxyUseBuffer b.config s true ptr e.use).st s.emptySlot ptr
        (roundToPage nSizeBytes) (proxyUseBuffer b.config s true ptr e.use) e]
      simp [proxyAllocateBuffer, hmem, hu]
    have hkept : (proxyAllocateBuffer b.config s true metaPort nSizeBytes e).st.nAllocatedBuffers =
        s.nAllocatedBuffers + 1 := by
      rw [← hcount]
      simp [proxyAllocateBuffer, hmem, hu]
    constructor
    · intro h _ _ _
      refine ⟨hclean, fun _ hmaps hmap => ?_⟩
      have hundo := (h (herr.mpr ⟨hmaps, hmap⟩)).allocated
      omega
    · intro h hfail
      obtain ⟨hmaps, hmap⟩ := herr.mp hfail
      exact absurd hmap ((h rfl hgets hreach).2 hcomp hmaps)
  · have heq : proxyAllocateBuffer b.config s true metaPort nSizeBytes e =
        ⟨(proxyUseBuffer b.config s true ptr e.use).st,
          (proxyUseBuffer b.config s true ptr e.use).err,
          (proxyUseBuffer b.config s true ptr e.use).hdr,
          (proxyUseBuffer b.config s true ptr e.use).stored, none,
          [req] ++ (proxyUseBuffer b.config s true ptr e.use).reqs ++
            [if b.config.useIonBuild then .ionFree ptr else .memMgrFree ptr]⟩ := by
      simp [proxyAllocateBuffer, hmem, hu]
    have hdeeds : allocDeeds b.config s true metaPort nSizeBytes e =
        [.mem req] ++ useDeeds b.config s true ptr e.use ++
          [.mem (if b.config.useIonBuild then .ionFree ptr else .memMgrFree ptr)] := by
      simp [allocDeeds, hmem, hu]
    have hfree : obtained (.mem (if b.config.useIonBuild then
        .ionFree ptr else .memMgrFree ptr)) = [] := by
      cases b.config.useIonBuild <;> rfl
    have hiff : AllocAllOrNothing b.config s true metaPort nSizeBytes e ↔
        UseAllOrNothing b.config s true ptr e.use := by
      rw [AllocAllOrNothing, heq, hdeeds, hreg, undone_wrapped hgiven hfree hsame,
        UseAllOrNothing]
    rw [hiff, huse]
    constructor
    · intro h _ _ hreach
      have hclean := h hreach
      exact ⟨hclean, fun hcomp => absurd (useBuffer_succeeds hreach hclean hcomp ptr) hu⟩
    · intro h hreach
      exact (h rfl hgets hreach).1

/-- In every state, a registration that fails is undone if and only if it fails before the
remote call, or the component refuses the buffer with no metadata memory taken. -/
theorem allOrNothing_iff (b : Build) (s : Proxy) :
    (∀ hasPtr pBuffer e, UseAllOrNothing b.config s hasPtr pBuffer e ↔
      (ReachesRemote b.config s hasPtr e → UseClean b.config s e)) ∧
    (∀ hasPtr metaPort nSizeBytes e, AllocAllOrNothing b.config s hasPtr metaPort nSizeBytes e ↔
      (hasPtr = true → GetsMemory b.config metaPort e → ReachesRemote b.config s true e.use →
        AllocClean b.config s e)) :=
  ⟨useBuffer_iff b.config s, allocateBuffer_iff b s⟩

def someFields : HeaderFields := ⟨headerSize, 1, 1, 0, 0, 0, 0, 0, 0, 0, 0⟩

/-- The first buffer of a component whose buffers are mapped; the mapping fails. -/
def unmappedEnv : AllocEnv :=
  ⟨.none, 0, .none, .none, some 7,
    ⟨some 16, someFields, true, .none, 0, .none, .none, false, 0, none, .none, .none, 9, someFields,
      none⟩, none⟩

/-- The caller is told that there are no resources, and the buffer is in the table. -/
theorem mapping_leaves :
    ¬ AllocAllOrNothing (Build.ion true).config .initial true false 100 unmappedEnv := by
  intro h
  have hcount := (h (by decide)).allocated
  revert hcount
  decide

end Omap4Hal.Domx

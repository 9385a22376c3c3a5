import Omap4Hal.Domx.Proxy
import Omap4Hal.Lib.Ledger

/- Creation of an RPC instance (`omx_rpc.c`) and the pipes it makes (`timm_osal_pipes.c`):
   memory for the context, the device, the connection, a pipe for each function, the descriptor
   that ends the callback thread, and the thread.

   `RPC_InstanceInit` has two error variables. What is wrong is noted in `eRPCError`, except for
   a device that cannot be opened, which is noted in `eError`: the function then returns success
   and a context without a device. `RPC_InstanceDeInit` takes what is zero in the context for
   what was not made, but a kill descriptor that could not be made is -1, and a descriptor may
   be 0. `instanceInit_iff` says that these are all. -/
namespace Omap4Hal.Domx.Instance
open Lib
open Function (update update_of_ne update_self)
open List (flatMap_append range)

def rpcOmxMaxFunctionList : Nat := 21

/-! ## What is taken -/

inductive Resource where
  | block (p : UInt32)
  | descriptor (fd : Int)
  deriving DecidableEq

/-- Memory and descriptors are taken and given back; a failing `close` gives back too. -/
inductive Deed where
  | take (r : Resource)
  | give (r : Resource)
  deriving DecidableEq

def Deed.taken : Deed → List Resource
  | .take r => [r]
  | .give _ => []

def Deed.given : Deed → List Resource
  | .take _ => []
  | .give r => [r]

/-! ## Pipes -/

inductive TimmError where
  | none
  | alloc
  | parameter
  | unknown
  deriving DecidableEq

/-- `TIMM_OSAL_PIPE`: its address and `pfd`. -/
structure OsalPipe where
  handle : UInt32
  readFd : Int
  writeFd : Int
  deriving DecidableEq

/-- What the system answers to `TIMM_OSAL_CreatePipe`: memory, unless it is `NULL`, and the two
descriptors, unless `pipe` fails. -/
structure PipeEnv where
  mem : Option UInt32
  pfd : Option (Nat × Nat)

def createPipe (e : PipeEnv) : TimmError × Option OsalPipe × List Deed :=
  match e.mem with
  | none => (.alloc, none, [])
  | some pHandle =>
    match e.pfd with
    | none => (.unknown, none, [.take (.block pHandle), .give (.block pHandle)])
    | some (r, w) => (.none, some ⟨pHandle, r, w⟩,
        [.take (.block pHandle), .take (.descriptor r), .take (.descriptor w)])

/-- `closeOk` says which descriptors `close` returns `SUCCESS` for. -/
def deletePipe (closeOk : Int → Bool) : Option OsalPipe → TimmError × List Deed
  | none => (.parameter, [])
  | some p => (if closeOk p.readFd && closeOk p.writeFd then .none else .unknown,
      [.give (.descriptor p.readFd), .give (.descriptor p.writeFd), .give (.block p.handle)])

/-! ## Tear down -/

/-- `RPC_OMX_CONTEXT`, with its address. -/
structure Context where
  addr : UInt32
  fdOmx : Int := 0
  fdKillcb : Int := 0
  cbThread : UInt32 := 0
  pMsgPipe : Nat → Option OsalPipe := fun _ => none

structure DeInitEnv where
  killWritten : Bool
  joined : Bool
  closeOk : Int → Bool

def rpcErrorUndefined : RpcError := .other 0x81001

/-- The releases and the error of `RPC_InstanceDeInit`. -/
def instanceDeInit (e : DeInitEnv) : Option Context → RpcError × List Deed
  | none => (rpcErrorUndefined, [])
  | some c =>
    let killOk := c.fdKillcb == 0 ||
      (e.killWritten && (c.cbThread == 0 || e.joined) && e.closeOk c.fdKillcb)
    let kill : List Deed := if c.fdKillcb ≠ 0 then [.give (.descriptor c.fdKillcb)] else []
    let pipes := (range rpcOmxMaxFunctionList).map fun i =>
      match c.pMsgPipe i with
      | none => (TimmError.none, [])
      | some p => deletePipe e.closeOk (some p)
    let omxOk := c.fdOmx == 0 || e.closeOk c.fdOmx
    let omx : List Deed := if c.fdOmx ≠ 0 then [.give (.descriptor c.fdOmx)] else []
    (if killOk && pipes.all (·.1 == .none) && omxOk then .none else rpcErrorUndefined,
      kill ++ pipes.flatMap Prod.snd ++ omx ++ [.give (.block c.addr)])

/-! ## Creation -/

inductive OpenAnswer where
  | opened (fd : Nat)
  | failed (enoent : Bool)
  deriving DecidableEq

/-- `left` more attempts are allowed after this one, which is the `n`th from zero. -/
def openFrom (answer : Nat → OpenAnswer) : Nat → Nat → Int
  | left, n =>
    match answer n with
    | .opened fd => fd
    | .failed false => -1
    | .failed true =>
      match left with
      | 0 => -1
      | left + 1 => openFrom answer left (n + 1)

/-- `open` is called again while there is no such device, 16 times at most. -/
def openDevice (answer : Nat → OpenAnswer) : Int := openFrom answer 15 0

/-- The loop over the pipes: whether all were made, the table, and what was done. -/
def createPipes (pipe : Nat → PipeEnv) :
    List Nat → (Nat → Option OsalPipe) → Bool × (Nat → Option OsalPipe) × List Deed
  | [], pMsgPipe => (true, pMsgPipe, [])
  | i :: is, pMsgPipe =>
    match createPipe (pipe i) with
    | (.none, p, did) =>
      let r := createPipes pipe is (update pMsgPipe i p)
      (r.1, r.2.1, did ++ r.2.2)
    | (_, _, did) => (false, pMsgPipe, did)

/-- What the system answers during one `RPC_InstanceInit`. -/
structure InitEnv where
  context : Option UInt32
  device : Nat → OpenAnswer
  connected : Bool
  pipe : Nat → PipeEnv
  eventfd : Option Nat
  /-- Whether the thread was started; and what `cbThread` holds then or otherwise. -/
  threadStarted : Bool
  cbThread : UInt32
  deInit : DeInitEnv

structure InitResult where
  err : RpcError
  context : Option Context
  did : List Deed

/-- The label `EXIT` with an error in `eRPCError`. -/
def exitInit (e : InitEnv) (c : Context) (did : List Deed) : InitResult :=
  ⟨.insufficientResources, none, did ++ (instanceDeInit e.deInit (some c)).2⟩

def instanceInit (e : InitEnv) : InitResult :=
  match e.context with
  | none => ⟨.insufficientResources, none, (instanceDeInit e.deInit none).2⟩
  | some addr =>
    let did : List Deed := [.take (.block addr)]
    let c : Context := { addr := addr, fdOmx := openDevice e.device }
    -- `eRPCError` is still `RPC_OMX_ErrorNone` here
    if c.fdOmx < 0 then ⟨.none, some c, did⟩
    else
      let did := did ++ [.take (.descriptor c.fdOmx)]
      if e.connected = false then exitInit e c did
      else
        let r := createPipes e.pipe (range rpcOmxMaxFunctionList) c.pMsgPipe
        let c := { c with pMsgPipe := r.2.1 }
        let did := did ++ r.2.2
        if r.1 = false then exitInit e c did
        else match e.eventfd with
          | none => exitInit e { c with fdKillcb := -1 } did
          | some fd =>
            let c := { c with fdKillcb := fd, cbThread := e.cbThread }
            let did := did ++ [.take (.descriptor fd)]
            if e.threadStarted = false then exitInit e c did
            else ⟨.none, some c, did⟩

/-- Every step succeeds. -/
structure Complete (e : InitEnv) : Prop where
  context : e.context ≠ none
  device : 0 ≤ openDevice e.device
  connected : e.connected = true
  pipes : ∀ i, i < rpcOmxMaxFunctionList → (createPipe (e.pipe i)).2.1 ≠ none
  killFd : e.eventfd ≠ none
  thread : e.threadStarted = true

/-- Success and a context if and only if every step succeeds; else an error and no context, with
everything that was taken given back once and nothing else. -/
structure AllOrNothing (e : InitEnv) : Prop where
  success : (instanceInit e).err = .none ∧ (instanceInit e).context ≠ none ↔ Complete e
  failure : ¬ Complete e → (instanceInit e).err ≠ .none ∧ (instanceInit e).context = none ∧
    Lib.Balanced ((instanceInit e).did.flatMap Deed.taken)
      ((instanceInit e).did.flatMap Deed.given) []

/-- Memory for the context but no device is what must not happen. Where a later step fails, the
device must not have descriptor 0, and the kill descriptor, if it comes to that, must be made and
not be 0. -/
structure Clean (e : InitEnv) : Prop where
  device : 0 ≤ openDevice e.device
  later : ¬ Complete e → openDevice e.device ≠ 0 ∧
    (e.connected = true → (∀ i, i < rpcOmxMaxFunctionList → (createPipe (e.pipe i)).2.1 ≠ none) →
      ∃ fd, e.eventfd = some fd ∧ fd ≠ 0)

/-! ## Books -/

def pipeHolds : Option OsalPipe → List Resource
  | none => []
  | some p => [.descriptor p.readFd, .descriptor p.writeFd, .block p.handle]

theorem createPipe_books (e : PipeEnv) :
    ((createPipe e).2.2.flatMap Deed.taken).Perm
      ((createPipe e).2.2.flatMap Deed.given ++ pipeHolds (createPipe e).2.1) ∧
    ((createPipe e).1 = .none ↔ (createPipe e).2.1 ≠ none) := by
  unfold createPipe
  split
  · simp [pipeHolds]
  split
  · simp [pipeHolds, Deed.taken, Deed.given]
  · refine ⟨?_, by simp⟩
    exact (List.perm_append_singleton _ [_, _]).symm

theorem createPipes_cons_ok {pipe : Nat → PipeEnv} {i : Nat} (h : (createPipe (pipe i)).1 = .none)
    (is : List Nat) (tab : Nat → Option OsalPipe) :
    createPipes pipe (i :: is) tab =
      ((createPipes pipe is (update tab i (createPipe (pipe i)).2.1)).1,
        (createPipes pipe is (update tab i (createPipe (pipe i)).2.1)).2.1,
        (createPipe (pipe i)).2.2 ++
          (createPipes pipe is (update tab i (createPipe (pipe i)).2.1)).2.2) := by
  rw [createPipes]
  generalize createPipe (pipe i) = r at h ⊢
  obtain ⟨err, p, did⟩ := r
  obtain rfl : err = .none := h
  rfl

theorem createPipes_cons_fail {pipe : Nat → PipeEnv} {i : Nat}
    (h : (createPipe (pipe i)).1 ≠ .none) (is : List Nat) (tab : Nat → Option OsalPipe) :
    createPipes pipe (i :: is) tab = (false, tab, (createPipe (pipe i)).2.2) := by
  rw [createPipes]
  generalize createPipe (pipe i) = r at h ⊢
  obtain ⟨err, p, did⟩ := r
  cases err with
  | none => exact absurd rfl h
  | _ => rfl

variable {tab : Nat → Option OsalPipe} {did : List Deed}

theorem createPipes_other (pipe : Nat → PipeEnv) {is : List Nat} {j : Nat} (hj : j ∉ is) :
    (createPipes pipe is tab).2.1 j = tab j := by
  induction is generalizing tab with
  | nil => rfl
  | cons i is ih =>
    obtain ⟨hji, hjs⟩ := not_or.mp fun h => hj (List.mem_cons.mpr h)
    by_cases hok : (createPipe (pipe i)).1 = .none
    · rw [createPipes_cons_ok hok, ih hjs, update_of_ne hji]
    · rw [createPipes_cons_fail hok]

theorem createPipes_books (pipe : Nat → PipeEnv) {is : List Nat} (hnodup : is.Nodup)
    (htab : ∀ i ∈ is, tab i = none) :
    ((createPipes pipe is tab).2.2.flatMap Deed.taken).Perm
      ((createPipes pipe is tab).2.2.flatMap Deed.given ++
        is.flatMap fun i => pipeHolds ((createPipes pipe is tab).2.1 i)) := by
  induction is generalizing tab with
  | nil => exact List.Perm.refl []
  | cons i is ih =>
    obtain ⟨hi, hnodup⟩ := List.nodup_cons.mp hnodup
    obtain ⟨hbooks, hiff⟩ := createPipe_books (pipe i)
    by_cases hok : (createPipe (pipe i)).1 = .none
    · have hrest : ∀ j ∈ is, update tab i (createPipe (pipe i)).2.1 j = none := by
        intro j hj
        rw [update_of_ne (fun h : j = i => hi (h ▸ hj))]
        exact htab j (List.mem_cons_of_mem i hj)
      rw [createPipes_cons_ok hok]
      dsimp only
      rw [flatMap_append, flatMap_append, List.flatMap_cons,
        createPipes_other pipe hi, update_self]
      exact Lib.Balanced.append hbooks (ih hnodup hrest)
    · have hnone : (createPipe (pipe i)).2.1 = none := not_not.mp fun h => hok (hiff.mpr h)
      have hempty : (i :: is).flatMap (fun i => pipeHolds (tab i)) = [] := by
        refine List.flatMap_eq_nil_iff.mpr fun j hj => ?_
        rw [htab j hj]
        rfl
      rw [createPipes_cons_fail hok]
      dsimp only
      rw [hempty]
      rw [hnone] at hbooks
      exact hbooks

theorem createPipes_all_iff (pipe : Nat → PipeEnv) (is : List Nat) (tab : Nat → Option OsalPipe) :
    (createPipes pipe is tab).1 = true ↔ ∀ i ∈ is, (createPipe (pipe i)).2.1 ≠ none := by
  induction is generalizing tab with
  | nil => simp [createPipes]
  | cons i is ih =>
    have hiff := (createPipe_books (pipe i)).2
    rw [List.forall_mem_cons, ← hiff]
    by_cases hok : (createPipe (pipe i)).1 = .none
    · rw [createPipes_cons_ok hok, and_iff_right hok]
      exact ih _
    · rw [createPipes_cons_fail hok]
      exact iff_of_false (by simp) fun h => hok h.1

/-! ## Tear down -/

/-- What the context holds, as `RPC_InstanceDeInit` reads it. -/
def Context.holds (c : Context) : List Resource :=
  (if c.fdKillcb ≠ 0 then [.descriptor c.fdKillcb] else []) ++
    (range rpcOmxMaxFunctionList).flatMap (fun i => pipeHolds (c.pMsgPipe i)) ++
    (if c.fdOmx ≠ 0 then [.descriptor c.fdOmx] else []) ++ [.block c.addr]

theorem deletePipe_given (closeOk : Int → Bool) (p : Option OsalPipe) :
    (deletePipe closeOk p).2.flatMap Deed.given = pipeHolds p ∧
    (deletePipe closeOk p).2.flatMap Deed.taken = [] := by
  cases p with
  | none => exact ⟨rfl, rfl⟩
  | some p => exact ⟨rfl, rfl⟩

theorem instanceDeInit_books (e : DeInitEnv) (c : Context) :
    (instanceDeInit e (some c)).2.flatMap Deed.given = c.holds ∧
    (instanceDeInit e (some c)).2.flatMap Deed.taken = [] := by
  have hpipe : ∀ i, (match c.pMsgPipe i with
      | none => (TimmError.none, [])
      | some p => deletePipe e.closeOk (some p)).2 = (deletePipe e.closeOk (c.pMsgPipe i)).2 := by
    intro i
    cases c.pMsgPipe i <;> rfl
  have hkill : ∀ fd : Int, ((if fd ≠ 0 then [.give (.descriptor fd)] else [] : List Deed).flatMap
      Deed.given = if fd ≠ 0 then [.descriptor fd] else []) ∧
      (if fd ≠ 0 then [.give (.descriptor fd)] else [] : List Deed).flatMap Deed.taken = [] := by
    intro fd
    split
    · exact ⟨rfl, rfl⟩
    · exact ⟨rfl, rfl⟩
  simp only [instanceDeInit, Context.holds, flatMap_append, List.flatMap_map, hpipe, hkill,
    List.flatMap_assoc, deletePipe_given]
  simp [Deed.given, Deed.taken]

/-- After the label `EXIT` the books are even if and only if the context holds what is left. -/
theorem exitInit_balanced_iff {e : InitEnv} {c : Context} {left : List Resource}
    (hdid : Lib.Balanced (did.flatMap Deed.taken) (did.flatMap Deed.given) left) :
    Lib.Balanced ((exitInit e c did).did.flatMap Deed.taken)
      ((exitInit e c did).did.flatMap Deed.given) [] ↔ left.Perm c.holds := by
  obtain ⟨hgiven, htaken⟩ := instanceDeInit_books e.deInit c
  simp only [exitInit, flatMap_append, hgiven, htaken, List.append_nil, Lib.Balanced]
  rw [hdid.congr_left, List.perm_append_left_iff]

/-! ## The steps of the creation -/

/-- What is left when the device is open and pipes were made. -/
def leftOpen (addr : UInt32) (fd : Int) (pMsgPipe : Nat → Option OsalPipe) : List Resource :=
  [.block addr, .descriptor fd] ++
    (range rpcOmxMaxFunctionList).flatMap fun i => pipeHolds (pMsgPipe i)

theorem leftOpen_perm_iff (addr : UInt32) (fd : Int) (pMsgPipe : Nat → Option OsalPipe) :
    (leftOpen addr fd pMsgPipe).Perm
        (Context.holds { addr := addr, fdOmx := fd, pMsgPipe := pMsgPipe }) ↔ fd ≠ 0 := by
  rw [leftOpen, Context.holds]
  generalize (range rpcOmxMaxFunctionList).flatMap (fun i => pipeHolds (pMsgPipe i)) = pipes
  by_cases hfd : fd = 0
  · refine iff_of_false (fun h => ?_) (fun h => h hfd)
    have hlen := h.length_eq
    simp [hfd] at hlen
  · refine iff_of_true (List.perm_iff_count.mpr fun r => ?_) hfd
    simp [hfd, List.count_cons]
    omega

theorem leftOpen_not_perm (addr : UInt32) {fd : Int} (hfd : 0 ≤ fd)
    (pMsgPipe : Nat → Option OsalPipe) : ¬ (leftOpen addr fd pMsgPipe).Perm
      (Context.holds { addr := addr, fdOmx := fd, fdKillcb := -1, pMsgPipe := pMsgPipe }) := by
  rw [leftOpen, Context.holds]
  generalize (range rpcOmxMaxFunctionList).flatMap (fun i => pipeHolds (pMsgPipe i)) = pipes
  intro h
  have hcount := List.perm_iff_count.mp h (.descriptor (-1))
  have hne : fd ≠ -1 := by omega
  simp [hne] at hcount
  omega

theorem leftOpen_kill_perm_iff (addr : UInt32) (fd kill : Int) (thread : UInt32)
    (pMsgPipe : Nat → Option OsalPipe) :
    (leftOpen addr fd pMsgPipe ++ [Resource.descriptor kill]).Perm
        (Context.holds ⟨addr, fd, kill, thread, pMsgPipe⟩) ↔ fd ≠ 0 ∧ kill ≠ 0 := by
  rw [leftOpen, Context.holds]
  generalize (range rpcOmxMaxFunctionList).flatMap (fun i => pipeHolds (pMsgPipe i)) = pipes
  by_cases hboth : fd ≠ 0 ∧ kill ≠ 0
  · refine iff_of_true (List.perm_iff_count.mpr fun r => ?_) hboth
    simp [hboth.1, hboth.2, List.count_cons]
    omega
  · refine iff_of_false (fun h => ?_) hboth
    have hlen := h.length_eq
    by_cases hfd : fd = 0
    · by_cases hkill : kill = 0
      · simp [hfd, hkill] at hlen
        omega
      · simp [hfd, hkill] at hlen
    · by_cases hkill : kill = 0
      · simp [hfd, hkill] at hlen
      · exact hboth ⟨hfd, hkill⟩

theorem allOrNothing_exit_iff {e : InitEnv} {c : Context} {left : List Resource}
    (heq : instanceInit e = exitInit e c did) (hno : ¬ Complete e)
    (hdid : Lib.Balanced (did.flatMap Deed.taken) (did.flatMap Deed.given) left) :
    AllOrNothing e ↔ left.Perm c.holds := by
  rw [← exitInit_balanced_iff hdid, ← heq]
  constructor
  · intro h
    exact (h.failure hno).2.2
  · intro h
    refine ⟨iff_of_false (fun hs => ?_) hno, fun _ => ⟨?_, ?_, h⟩⟩
    · rw [heq] at hs
      exact hs.2 rfl
    · rw [heq]
      simp [exitInit]
    · rw [heq]
      rfl

/-- What was done until the pipes. -/
def doneOpen (addr : UInt32) (fd : Int) (pipes : List Deed) : List Deed :=
  [Deed.take (.block addr), Deed.take (.descriptor fd)] ++ pipes

theorem doneOpen_balanced (addr : UInt32) (fd : Int) :
    Lib.Balanced ((doneOpen addr fd []).flatMap Deed.taken)
      ((doneOpen addr fd []).flatMap Deed.given) (leftOpen addr fd fun _ => none) :=
  List.Perm.refl _

theorem pipes_balanced (e : InitEnv) (addr : UInt32) (fd : Int) {made : Bool}
    (h : createPipes e.pipe (range rpcOmxMaxFunctionList) (fun _ => none) = (made, tab, did)) :
    Lib.Balanced ((doneOpen addr fd did).flatMap Deed.taken)
      ((doneOpen addr fd did).flatMap Deed.given) (leftOpen addr fd tab) := by
  have hempty : ∀ i ∈ range rpcOmxMaxFunctionList, (fun _ => none : Nat → Option OsalPipe) i =
      none := fun _ _ => rfl
  have hbooks := createPipes_books e.pipe List.nodup_range hempty
  rw [h] at hbooks
  have hfirst : Lib.Balanced [Resource.block addr, .descriptor fd] []
      [.block addr, .descriptor fd] := List.Perm.refl _
  rw [doneOpen, flatMap_append, flatMap_append]
  exact Lib.Balanced.append hfirst hbooks

theorem allOrNothing_noContext {e : InitEnv} (h : e.context = none) : AllOrNothing e := by
  have hno : ¬ Complete e := fun hc => hc.context h
  have heq : instanceInit e = ⟨.insufficientResources, none, []⟩ := by
    rw [instanceInit, h]
    rfl
  refine ⟨iff_of_false (fun hs => ?_) hno, fun _ => ?_⟩
  · rw [heq] at hs
    exact hs.2 rfl
  · rw [heq]
    exact ⟨by simp, rfl, List.Perm.refl []⟩

/-- The creation is all or nothing if and only if there is no memory for the context, or the
device can be opened and a failing step has its things in the context as the tear down reads
it. -/
theorem instanceInit_iff (e : InitEnv) : AllOrNothing e ↔ e.context = none ∨ Clean e := by
  cases haddr : e.context with
  | none => exact iff_of_true (allOrNothing_noContext haddr) (.inl rfl)
  | some addr =>
  rw [or_iff_right (by simp)]
  by_cases hdevice : openDevice e.device < 0
  · -- success without a device
    have heq : instanceInit e = ⟨.none, some { addr := addr, fdOmx := openDevice e.device },
        [.take (.block addr)]⟩ := by
      rw [instanceInit, haddr]
      exact if_pos hdevice
    refine iff_of_false (fun h => ?_) (fun h => Int.not_lt.mpr h.device hdevice)
    have hcomplete := h.success.mp (by rw [heq]; simp)
    exact Int.not_lt.mpr hcomplete.device hdevice
  have hopen : 0 ≤ openDevice e.device := Int.not_lt.mp hdevice
  cases hconn : e.connected with
  | false =>
    have hno : ¬ Complete e := fun hc => by simp [hc.connected] at hconn
    have heq : instanceInit e = exitInit e { addr := addr, fdOmx := openDevice e.device }
        (doneOpen addr (openDevice e.device) []) := by
      simp [instanceInit, haddr, hdevice, hconn, doneOpen]
    rw [allOrNothing_exit_iff heq hno (doneOpen_balanced addr _), leftOpen_perm_iff]
    refine ⟨fun h => ⟨hopen, fun _ => ⟨h, fun hc => ?_⟩⟩, fun h => (h.later hno).1⟩
    rw [hconn] at hc
    cases hc
  | true =>
  have hall := createPipes_all_iff e.pipe (range rpcOmxMaxFunctionList) fun _ => none
  simp only [List.mem_range] at hall
  obtain ⟨⟨made, tab, did⟩, hr⟩ : ∃ r, createPipes e.pipe (range rpcOmxMaxFunctionList)
      (fun _ => none) = r := ⟨_, rfl⟩
  have hbooks := pipes_balanced e addr (openDevice e.device) hr
  rw [hr] at hall
  cases made with
  | false =>
    have hmissing : ¬ ∀ i, i < rpcOmxMaxFunctionList → (createPipe (e.pipe i)).2.1 ≠ none :=
      fun h => Bool.false_ne_true (hall.mpr h)
    have hno : ¬ Complete e := fun hc => hmissing hc.pipes
    have heq : instanceInit e = exitInit e
        { addr := addr, fdOmx := openDevice e.device, pMsgPipe := tab }
        (doneOpen addr (openDevice e.device) did) := by
      simp [instanceInit, haddr, hdevice, hconn, hr, doneOpen]
    rw [allOrNothing_exit_iff heq hno hbooks, leftOpen_perm_iff]
    exact ⟨fun h => ⟨hopen, fun _ => ⟨h, fun _ hp => absurd hp hmissing⟩⟩,
      fun h => (h.later hno).1⟩
  | true =>
  have hmade := hall.mp rfl
  cases hkill : e.eventfd with
  | none =>
    have hno : ¬ Complete e := fun hc => hc.killFd hkill
    have heq : instanceInit e = exitInit e
        { addr := addr, fdOmx := openDevice e.device, fdKillcb := -1, pMsgPipe := tab }
        (doneOpen addr (openDevice e.device) did) := by
      simp [instanceInit, haddr, hdevice, hconn, hr, hkill, doneOpen]
    rw [allOrNothing_exit_iff heq hno hbooks]
    refine iff_of_false (leftOpen_not_perm addr hopen tab) (fun h => ?_)
    obtain ⟨fd, hfd, -⟩ := (h.later hno).2 hconn hmade
    rw [hkill] at hfd
    cases hfd
  | some kill =>
  cases hthread : e.threadStarted with
  | false =>
    have hno : ¬ Complete e := fun hc => by simp [hc.thread] at hthread
    have heq : instanceInit e = exitInit e ⟨addr, openDevice e.device, kill, e.cbThread, tab⟩
        (doneOpen addr (openDevice e.device) did ++ [.take (.descriptor kill)]) := by
      simp [instanceInit, haddr, hdevice, hconn, hr, hkill, hthread, doneOpen]
    have hmore := hbooks.take (Resource.descriptor kill)
    rw [← List.append_nil (List.flatMap Deed.given _)] at hmore
    rw [allOrNothing_exit_iff heq hno
      (by rw [flatMap_append, flatMap_append]; exact hmore), leftOpen_kill_perm_iff]
    constructor
    · intro h
      exact ⟨hopen, fun _ => ⟨h.1, fun _ _ => ⟨kill, hkill, by simpa using h.2⟩⟩⟩
    · intro h
      obtain ⟨hfd, hlater⟩ := h.later hno
      obtain ⟨fd, heq', hne⟩ := hlater hconn hmade
      obtain rfl : kill = fd := by simpa [hkill] using heq'
      exact ⟨hfd, by simpa using hne⟩
  | true =>
    have hcomplete : Complete e := ⟨by simp [haddr], hopen, hconn, hmade, by simp [hkill], hthread⟩
    refine iff_of_true ⟨iff_of_true ?_ hcomplete, fun h => absurd hcomplete h⟩
      ⟨hopen, fun h => absurd hcomplete h⟩
    simp [instanceInit, haddr, hdevice, hconn, hr, hkill, hthread]

/-- A system without the device, and with everything else. -/
def noDevice : InitEnv where
  context := some 0x1000
  device := fun _ => .failed true
  connected := true
  pipe := fun i => ⟨some (UInt32.ofNat i), some (2 * i + 4, 2 * i + 5)⟩
  eventfd := some 3
  threadStarted := true
  cbThread := 1
  deInit := ⟨true, true, fun _ => true⟩

/-- After 16 attempts the caller is told that all is well, and gets a context. -/
theorem noDevice_succeeds :
    (instanceInit noDevice).err = .none ∧
      (instanceInit noDevice).context.map (·.fdOmx) = some (-1) ∧ ¬ AllOrNothing noDevice := by
  refine ⟨rfl, rfl, fun h => ?_⟩
  have hcomplete := h.success.mp ⟨rfl, by simp [instanceInit, noDevice, openDevice, openFrom]⟩
  exact absurd hcomplete.device (by decide)

end Omap4Hal.Domx.Instance

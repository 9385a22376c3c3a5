import Omap4Hal.Lib.Run
import Omap4Hal.Lib.TaggedQueue

/- Packet ownership in the RPC layer: `RPC_CallbackThread` (`omx_rpc.c`) and the stub
   calls that take its packets out of the message pipes (`omx_rpc_stub.c`).

   Packets are numbered in the order the thread allocates them, so a number names
   one allocation. The pipes are one tagged queue, the tag being the function
   index. One pass of the thread's loop is one step; a stub call may take a packet
   while the thread is between its pipe write and the label `EXIT`, and the step
   lists the pipes read in that window (`during`).

   Two things go wrong at `EXIT`. `eRPCError` is never set back, so after an error
   the thread frees every packet it has just forwarded; and `pBuffer` still points
   at a forwarded packet in the next pass, so a failing `select` frees it.
   `packetInv_iff` shows that nothing else does. -/
namespace Omap4Hal.Domx
open Lib

/-- The values `eRPCError` takes in the thread. -/
inductive ThreadError where
  | none
  | undefined
  | insufficientResources
  | hardware
  deriving DecidableEq, Repr

structure RpcThread where
  running : Bool
  pBuffer : Option Nat
  eRpcError : ThreadError
  allocated : Nat
  pipes : List (Nat × Nat)
  freedByThread : List Nat
  freedByStub : List Nat
  /-- The calls made of `RPC_SKEL_*`, index and packet. -/
  handled : List (Nat × Nat)
  deriving DecidableEq, Repr

def RpcThread.initial : RpcThread := ⟨true, none, .none, 0, [], [], [], []⟩

def rpcOmxMaxFunctionList : UInt32 := 21
def fxnIdxFillBufferDone : UInt32 := 12
def fxnIdxEmptyBufferDone : UInt32 := 15
def fxnIdxEventHandler : UInt32 := 16

/-- What came of the `read` into the packet: the last is its `fxn_idx`. -/
inductive ReadResult where
  | enxio
  | failed
  | packet (fxnIdx : UInt32)
  deriving DecidableEq, Repr

structure Message where
  mallocOk : Bool
  read : ReadResult
  pipeOk : Bool
  deriving DecidableEq, Repr

/-- How `select` woke the thread; the kill descriptor is looked at first. -/
inductive Wake where
  | selectFailed
  | kill
  | message (m : Message)
  | idle
  deriving DecidableEq, Repr

/-- "Indices from static table will have bit 31 set". -/
def fxnIndex (fxnIdx : UInt32) : UInt32 :=
  if fxnIdx &&& 0x80000000 ≠ 0 then fxnIdx &&& 0x0FFFFFFF else fxnIdx

/-- The thread serves these itself. -/
def isSkel (idx : UInt32) : Bool :=
  idx == fxnIdxEventHandler || idx == fxnIdxEmptyBufferDone || idx == fxnIdxFillBufferDone

/-- The part of a pass that receives one message. -/
def receive (s : RpcThread) (m : Message) : RpcThread :=
  if m.mallocOk = false then { s with pBuffer := none, eRpcError := .insufficientResources }
  else
    let k := s.allocated
    let s₁ := { s with pBuffer := some k, allocated := k + 1 }
    match m.read with
    | .enxio => { s₁ with eRpcError := .hardware }
    | .failed => { s₁ with eRpcError := .undefined }
    | .packet fxnIdx =>
      let idx := fxnIndex fxnIdx
      if ¬ idx < rpcOmxMaxFunctionList then { s₁ with eRpcError := .undefined }
      else if isSkel idx then
        { s₁ with pBuffer := none, freedByThread := k :: s.freedByThread,
                  handled := (idx.toNat, k) :: s.handled }
      else if m.pipeOk then { s₁ with pipes := s.pipes ++ [(idx.toNat, k)] }
      else { s₁ with eRpcError := .undefined }

/-- A stub call takes the packet it waits for and frees it at its end. -/
def stubTake (s : RpcThread) (idx : Nat) : RpcThread :=
  match takeTag idx s.pipes with
  | none => s
  | some (k, q) => { s with pipes := q, freedByStub := k :: s.freedByStub }

/-- `EXIT:` of the loop. -/
def threadExit (s : RpcThread) : RpcThread :=
  if s.eRpcError = .none then s
  else
    let s₁ := match s.pBuffer with
      | none => s
      | some k => { s with pBuffer := none, freedByThread := k :: s.freedByThread }
    if s.eRpcError = .hardware then { s₁ with running := false } else s₁

/-- One pass of the loop. -/
def threadPass (s : RpcThread) (w : Wake) (during : List Nat) : RpcThread :=
  match w with
  | .kill => { s with running := false }
  | .selectFailed => threadExit (during.foldl stubTake { s with eRpcError := .undefined })
  | .idle => threadExit (during.foldl stubTake s)
  | .message m => threadExit (during.foldl stubTake (receive s m))

inductive RpcEvent where
  | thread (w : Wake) (during : List Nat)
  | stub (idx : Nat)
  deriving DecidableEq, Repr

def rpcStep (s : RpcThread) : RpcEvent → Option RpcThread
  | .thread w during => some (if s.running then threadPass s w during else s)
  | .stub idx => some (stubTake s idx)

/-! ## Ownership -/

/-- How often packet `k` was, or is about to be, freed by a stub call. -/
def RpcThread.handedOff (s : RpcThread) (k : Nat) : Nat :=
  s.freedByStub.count k + (s.pipes.map (·.2)).count k

/-- How often packet `k` is freed altogether. -/
def RpcThread.owners (s : RpcThread) (k : Nat) : Nat := s.freedByThread.count k + s.handedOff k

/-- Every packet allocated so far is freed exactly once: by the thread, or by the
stub call that takes or took it out of its pipe. -/
def PacketInv (s : RpcThread) : Prop := ∀ k, k < s.allocated → s.owners k = 1

/-- The inductive invariant: numbers not handed out yet are not freed either, and a
packet that `pBuffer` still points at was handed off without an error before. -/
structure PacketSound (s : RpcThread) : Prop where
  once : ∀ k, s.owners k = if k < s.allocated then 1 else 0
  stale : ∀ k, s.pBuffer = some k → s.eRpcError = .none ∧ s.handedOff k = 1

variable {s s' : RpcThread}

theorem PacketSound.inv (h : PacketSound s) : PacketInv s := by
  intro k hk
  rw [h.once, if_pos hk]

theorem initial_packetSound : PacketSound RpcThread.initial := by
  refine ⟨fun k => ?_, fun k hk => by cases hk⟩
  simp [RpcThread.owners, RpcThread.handedOff, RpcThread.initial]

/-- Stub calls move packets from the pipes to their own account. -/
structure StubSteps (s s' : RpcThread) : Prop where
  running : s'.running = s.running
  pBuffer : s'.pBuffer = s.pBuffer
  eRpcError : s'.eRpcError = s.eRpcError
  allocated : s'.allocated = s.allocated
  freed : s'.freedByThread = s.freedByThread
  handedOff : ∀ k, s'.handedOff k = s.handedOff k

theorem stubTake_steps (s : RpcThread) (idx : Nat) : StubSteps s (stubTake s idx) := by
  unfold stubTake
  cases h : takeTag idx s.pipes with
  | none => exact ⟨rfl, rfl, rfl, rfl, rfl, fun _ => rfl⟩
  | some r =>
    obtain ⟨k, q⟩ := r
    refine ⟨rfl, rfl, rfl, rfl, rfl, ?_⟩
    intro j
    have hperm : (s.pipes.map (·.2)).Perm (k :: q.map (·.2)) := (takeTag_perm h).map _
    simp only [RpcThread.handedOff, hperm.count_eq, List.count_cons]
    omega

theorem foldl_stubTake_steps (s : RpcThread) (during : List Nat) :
    StubSteps s (during.foldl stubTake s) := by
  induction during generalizing s with
  | nil => exact ⟨rfl, rfl, rfl, rfl, rfl, fun _ => rfl⟩
  | cons idx during ih =>
    have h₁ := stubTake_steps s idx
    have h₂ := ih (stubTake s idx)
    exact ⟨h₂.running.trans h₁.running, h₂.pBuffer.trans h₁.pBuffer,
      h₂.eRpcError.trans h₁.eRpcError, h₂.allocated.trans h₁.allocated, h₂.freed.trans h₁.freed,
      fun k => (h₂.handedOff k).trans (h₁.handedOff k)⟩

theorem StubSteps.owners (h : StubSteps s s') (k : Nat) :
    s'.owners k = s.owners k := by
  simp only [RpcThread.owners, h.freed, h.handedOff]

theorem StubSteps.sound (h : StubSteps s s') (hs : PacketSound s) :
    PacketSound s' := by
  refine ⟨fun k => ?_, fun k hk => ?_⟩
  · rw [h.owners, h.allocated]
    exact hs.once k
  · rw [h.eRpcError, h.handedOff]
    exact hs.stale k (h.pBuffer ▸ hk)

/-! ## The label `EXIT` -/

theorem threadExit_ok (h : s.eRpcError = .none) : threadExit s = s := by
  simp only [threadExit, h, if_true]

theorem threadExit_freedByThread (h : s.eRpcError ≠ .none) :
    (threadExit s).freedByThread = s.pBuffer.toList ++ s.freedByThread := by
  simp only [threadExit, h, if_false]
  cases s.pBuffer with
  | none =>
    simp only [Option.toList_none, List.nil_append]
    split <;> rfl
  | some k =>
    simp only [Option.toList_some, List.singleton_append]
    split <;> rfl

theorem threadExit_pBuffer (h : s.eRpcError ≠ .none) :
    (threadExit s).pBuffer = none := by
  simp only [threadExit, h, if_false]
  cases hb : s.pBuffer with
  | none =>
    simp only
    split <;> exact hb
  | some k =>
    simp only
    split <;> rfl

theorem threadExit_frame (s : RpcThread) :
    (threadExit s).allocated = s.allocated ∧ (threadExit s).pipes = s.pipes ∧
    (threadExit s).freedByStub = s.freedByStub := by
  simp only [threadExit]
  split
  · exact ⟨rfl, rfl, rfl⟩
  · cases s.pBuffer with
    | none => split <;> exact ⟨rfl, rfl, rfl⟩
    | some k => split <;> exact ⟨rfl, rfl, rfl⟩

theorem threadExit_owners (h : s.eRpcError ≠ .none) (k : Nat) :
    (threadExit s).owners k = s.owners k + s.pBuffer.toList.count k := by
  obtain ⟨_, hp, hf⟩ := threadExit_frame s
  simp only [RpcThread.owners, RpcThread.handedOff, threadExit_freedByThread h, hp, hf,
    List.count_append]
  omega

/-- An error frees what `pBuffer` points at, so the packets must be accounted for
with that one missing. -/
theorem threadExit_sound (h : s.eRpcError ≠ .none)
    (hs : ∀ k, s.owners k + s.pBuffer.toList.count k = if k < s.allocated then 1 else 0) :
    PacketSound (threadExit s) := by
  refine ⟨fun k => ?_, fun k hk => ?_⟩
  · rw [threadExit_owners h, (threadExit_frame s).1]
    exact hs k
  · rw [threadExit_pBuffer h] at hk
    cases hk

/-! ## One pass -/

/-- The message is read, is for a stub call, and goes into its pipe. -/
def Message.Forwards (m : Message) : Prop :=
  m.mallocOk = true ∧ m.pipeOk = true ∧ ∃ fxnIdx, m.read = .packet fxnIdx ∧
    fxnIndex fxnIdx < rpcOmxMaxFunctionList ∧ isSkel (fxnIndex fxnIdx) = false

inductive Received (s : RpcThread) (m : Message) (s' : RpcThread) : Prop where
  | noPacket (hno : ¬ m.Forwards) (herr : s'.eRpcError ≠ .none) (hbuf : s'.pBuffer = none)
      (halloc : s'.allocated = s.allocated) (howners : ∀ k, s'.owners k = s.owners k)
  | kept (hno : ¬ m.Forwards) (herr : s'.eRpcError ≠ .none) (hbuf : s'.pBuffer = some s.allocated)
      (halloc : s'.allocated = s.allocated + 1) (howners : ∀ k, s'.owners k = s.owners k)
  | served (hno : ¬ m.Forwards) (hbuf : s'.pBuffer = none)
      (halloc : s'.allocated = s.allocated + 1)
      (howners : ∀ k, s'.owners k = s.owners k + if k = s.allocated then 1 else 0)
  | forwarded (hfwd : m.Forwards) (herr : s'.eRpcError = s.eRpcError)
      (hbuf : s'.pBuffer = some s.allocated) (halloc : s'.allocated = s.allocated + 1)
      (howners : ∀ k, s'.owners k = s.owners k + if k = s.allocated then 1 else 0)
      (hoff : ∀ k, s'.handedOff k = s.handedOff k + if k = s.allocated then 1 else 0)

theorem receive_received (s : RpcThread) (m : Message) : Received s m (receive s m) := by
  unfold receive
  by_cases hm : m.mallocOk = false
  · rw [if_pos hm]
    refine .noPacket ?_ (by simp) rfl rfl (fun _ => rfl)
    intro hf
    rw [hf.1] at hm
    cases hm
  rw [if_neg hm]
  dsimp only
  cases hr : m.read with
  | enxio =>
    refine .kept ?_ (by simp) rfl rfl (fun _ => rfl)
    intro hf
    obtain ⟨_, _, w, hw, _⟩ := hf
    rw [hr] at hw
    cases hw
  | failed =>
    refine .kept ?_ (by simp) rfl rfl (fun _ => rfl)
    intro hf
    obtain ⟨_, _, w, hw, _⟩ := hf
    rw [hr] at hw
    cases hw
  | packet fxnIdx =>
    -- what the message has to be for the packet to go into a pipe
    have hfwd : m.Forwards → fxnIndex fxnIdx < rpcOmxMaxFunctionList ∧
        isSkel (fxnIndex fxnIdx) = false ∧ m.pipeOk = true := by
      intro hf
      obtain ⟨_, hpipe, w, hw, hlt, hskel⟩ := hf
      rw [hr, ReadResult.packet.injEq] at hw
      subst hw
      exact ⟨hlt, hskel, hpipe⟩
    dsimp only
    split
    · next hbad => exact .kept (fun hf => hbad (hfwd hf).1) (by simp) rfl rfl (fun _ => rfl)
    next hlt =>
    split
    · next hskel =>
      refine .served (fun hf => ?_) rfl rfl ?_
      · rw [(hfwd hf).2.1] at hskel
        cases hskel
      · intro k
        simp only [RpcThread.owners, RpcThread.handedOff, List.count_cons, beq_iff_eq]
        split
        · next heq => rw [if_pos heq.symm]; omega
        · next hne => rw [if_neg (fun h => hne h.symm)]; omega
    next hskel =>
    split
    · next hpipe =>
      have hoff : ∀ k, ((s.pipes ++ [((fxnIndex fxnIdx).toNat, s.allocated)]).map (·.2)).count k =
          (s.pipes.map (·.2)).count k + if k = s.allocated then 1 else 0 := by
        intro k
        simp only [List.map_append, List.map_cons, List.map_nil, List.count_append,
          List.count_singleton, beq_iff_eq]
        split
        · next heq => rw [if_pos heq.symm]
        · next hne => rw [if_neg (fun h => hne h.symm)]
      refine .forwarded ⟨by simpa using hm, hpipe, fxnIdx, hr, by simpa using hlt,
        by simpa using hskel⟩ rfl rfl rfl ?_ ?_
      · intro k
        simp only [RpcThread.owners, RpcThread.handedOff, hoff]
        omega
      · intro k
        simp only [RpcThread.handedOff, hoff]
        omega
    · next hpipe => exact .kept (fun hf => hpipe (hfwd hf).2.2) (by simp) rfl rfl (fun _ => rfl)

/-- The condition on one event: nothing is forwarded while an error is set, and
`select` does not fail while `pBuffer` still points at a forwarded packet. -/
def EventOk (s : RpcThread) : RpcEvent → Prop
  | .thread .selectFailed _ => s.running = true → s.pBuffer = none
  | .thread (.message m) _ => s.running = true → m.Forwards → s.eRpcError = .none
  | _ => True

section Pass
variable {s : RpcThread} (hs : PacketSound s)
include hs

theorem PacketSound.owners_allocated : s.owners s.allocated = 0 := by
  rw [hs.once, if_neg (Nat.lt_irrefl _)]

theorem PacketSound.once_succ (k : Nat) :
    s.owners k + (if k = s.allocated then 1 else 0) = if k < s.allocated + 1 then 1 else 0 := by
  rw [hs.once]
  by_cases hk : k = s.allocated
  · simp only [hk, Nat.lt_irrefl, if_false, if_true, Nat.lt_succ_self]
  · have : k < s.allocated ↔ k < s.allocated + 1 := by omega
    simp only [hk, if_false, this, Nat.add_zero]

end Pass

/-- A pass that ends with nothing to free: without an error the state is sound, and
with one `pBuffer` is null or at a packet nobody has freed yet. -/
theorem exit_sound (during : List Nat)
    (hclean : s.eRpcError ≠ .none →
      ∀ k, s.owners k + s.pBuffer.toList.count k = if k < s.allocated then 1 else 0)
    (hok : s.eRpcError = .none → PacketSound s) :
    PacketSound (threadExit (during.foldl stubTake s)) := by
  have hst := foldl_stubTake_steps s during
  by_cases he : s.eRpcError = .none
  · rw [threadExit_ok (hst.eRpcError.trans he)]
    exact hst.sound (hok he)
  · apply threadExit_sound (fun h => he (hst.eRpcError.symm.trans h))
    intro k
    rw [hst.owners, hst.pBuffer, hst.allocated]
    exact hclean he k

/-- A pass that ends with an error while `pBuffer` is at a packet that was handed
off: it is freed a second time. -/
theorem exit_not_inv (during : List Nat) {k : Nat} (he : s.eRpcError ≠ .none)
    (hb : s.pBuffer = some k) (hk : k < s.allocated) (hone : s.owners k = 1) :
    ¬ PacketInv (threadExit (during.foldl stubTake s)) := by
  have hst := foldl_stubTake_steps s during
  have he' : (during.foldl stubTake s).eRpcError ≠ .none := fun h => he (hst.eRpcError.symm.trans h)
  intro hinv
  have h := hinv k (by rw [(threadExit_frame _).1, hst.allocated]; exact hk)
  rw [threadExit_owners he', hst.owners, hst.pBuffer, hb, hone] at h
  simp at h

theorem message_sound (hs : PacketSound s) {m : Message} (during : List Nat)
    (hok : m.Forwards → s.eRpcError = .none) :
    PacketSound (threadExit (during.foldl stubTake (receive s m))) := by
  have hcount : ∀ k, (some s.allocated).toList.count k = if k = s.allocated then 1 else 0 := by
    intro k
    rw [Option.toList_some, List.count_singleton]
    simp only [beq_iff_eq, @eq_comm _ s.allocated k]
  apply exit_sound
  · intro he k
    cases receive_received s m with
    | noPacket _ _ hbuf halloc howners =>
      rw [howners, hbuf, halloc]
      exact hs.once k
    | kept _ _ hbuf halloc howners =>
      rw [howners, hbuf, halloc, hcount]
      exact hs.once_succ k
    | served _ hbuf halloc howners =>
      rw [howners, hbuf, halloc]
      exact hs.once_succ k
    | forwarded hfwd herr _ _ _ _ => exact absurd (herr.trans (hok hfwd)) he
  · intro he
    cases receive_received s m with
    | noPacket _ herr _ _ _ => exact absurd he herr
    | kept _ herr _ _ _ => exact absurd he herr
    | served _ hbuf halloc howners =>
      refine ⟨fun k => ?_, fun k hk => by rw [hbuf] at hk; cases hk⟩
      rw [howners, halloc]
      exact hs.once_succ k
    | forwarded _ _ hbuf halloc howners hoff =>
      refine ⟨fun k => ?_, fun k hk => ⟨he, ?_⟩⟩
      · rw [howners, halloc]
        exact hs.once_succ k
      · obtain rfl : s.allocated = k := by rw [hbuf] at hk; exact Option.some.inj hk
        have h0 : s.handedOff s.allocated = 0 := by
          have := hs.owners_allocated
          simp only [RpcThread.owners] at this
          omega
        rw [hoff, h0, if_pos rfl]

theorem rpcStep_sound {ev : RpcEvent} (hs : PacketSound s) (hok : EventOk s ev)
    (h : rpcStep s ev = some s') : PacketSound s' := by
  cases ev with
  | stub idx =>
    cases h
    exact (stubTake_steps s idx).sound hs
  | thread w during =>
    cases h
    split
    · next hrun =>
      cases w with
      | kill => exact ⟨hs.once, hs.stale⟩
      | selectFailed =>
        have hbuf : s.pBuffer = none := hok hrun
        apply exit_sound during (fun _ k => ?_) (fun he => by cases he)
        show s.owners k + s.pBuffer.toList.count k = _
        rw [hbuf]
        exact hs.once k
      | idle =>
        apply exit_sound during (fun he k => ?_) (fun _ => hs)
        cases hb : s.pBuffer with
        | none => exact hs.once k
        | some j => exact absurd (hs.stale j hb).1 he
      | message m => exact message_sound hs during (hok hrun)
    · exact hs

theorem rpcStep_not_inv {ev : RpcEvent} (hs : PacketSound s) (hbad : ¬ EventOk s ev) :
    ∃ s', rpcStep s ev = some s' ∧ ¬ PacketInv s' := by
  cases ev with
  | stub idx => exact absurd trivial hbad
  | thread w during =>
    cases w with
    | kill => exact absurd trivial hbad
    | idle => exact absurd trivial hbad
    | selectFailed =>
      simp only [EventOk, Classical.not_imp] at hbad
      obtain ⟨hrun, hbuf⟩ := hbad
      obtain ⟨k, hk⟩ := Option.ne_none_iff_exists'.mp hbuf
      have hone : s.owners k = 1 := by
        have h₁ := hs.once k
        have h₂ := (hs.stale k hk).2
        simp only [RpcThread.owners] at h₁ ⊢
        split at h₁ <;> omega
      have hlt : k < s.allocated := by
        by_contra hge
        have := hs.once k
        rw [if_neg hge] at this
        omega
      refine ⟨_, rfl, ?_⟩
      rw [if_pos hrun]
      exact exit_not_inv during (by simp) hk hlt hone
    | message m =>
      simp only [EventOk, Classical.not_imp] at hbad
      obtain ⟨hrun, hfwd, herr⟩ := hbad
      refine ⟨_, rfl, ?_⟩
      rw [if_pos hrun]
      cases receive_received s m with
      | noPacket hno _ _ _ _ => exact absurd hfwd hno
      | kept hno _ _ _ _ => exact absurd hfwd hno
      | served hno _ _ _ => exact absurd hfwd hno
      | forwarded _ he hbuf halloc howners _ =>
        apply exit_not_inv during (fun h => herr (he.symm.trans h)) hbuf
        · omega
        · rw [howners, hs.owners_allocated, if_pos rfl]

/-- Every packet is freed exactly once all along a run exactly when every event of
the run meets its condition. -/
theorem packetInv_iff (events : List RpcEvent) :
    Throughout rpcStep PacketInv RpcThread.initial events ↔
      Guarded rpcStep EventOk RpcThread.initial events := by
  apply throughout_iff_guarded (J := PacketSound)
  · intro s hs
    exact hs.inv
  · intro s ev s' hs hok h
    exact rpcStep_sound hs hok h
  · intro s ev hs hbad
    exact rpcStep_not_inv hs hbad
  · exact initial_packetSound

/-- A packet with a bad function index, then the answer to a `GetState` call, which
the stub takes. -/
def stickyError : List RpcEvent :=
  [.thread (.message ⟨true, .packet 99, true⟩) [],
    .thread (.message ⟨true, .packet 0x80000007, true⟩) [], .stub 7]

/-- The answer to a `GetState` call, and then `select` fails. -/
def staleBuffer : List RpcEvent :=
  [.thread (.message ⟨true, .packet 0x80000007, true⟩) [], .thread .selectFailed [], .stub 7]

/-- In both runs a packet is freed by the thread and by the stub call. -/
theorem packetInv_broken :
    (∃ s, run rpcStep RpcThread.initial stickyError = some s ∧
      1 ∈ s.freedByThread ∧ 1 ∈ s.freedByStub) ∧
    (∃ s, run rpcStep RpcThread.initial staleBuffer = some s ∧
      0 ∈ s.freedByThread ∧ 0 ∈ s.freedByStub) ∧
    ¬ ∀ events s, run rpcStep RpcThread.initial events = some s → PacketInv s := by
  refine ⟨⟨_, rfl, by decide, by decide⟩, ⟨_, rfl, by decide, by decide⟩, ?_⟩
  intro hall
  exact absurd (hall staleBuffer _ rfl 0 (by decide)) (by decide)

end Omap4Hal.Domx

import Omap4Hal.Domx.RpcThread

/- Matching of replies to requests on one RPC context. Client processes make stub
   calls (`omx_rpc_stub.c`): a call writes its packet to the device and then blocks
   on the message pipe of its function index. The remote side answers every
   request once, in any order; the callback thread moves the answers, in the order
   they arrive, into the pipe of their index.

   `RPC_initPacket` sets `msg_id` to 0 in every packet, so a reply says which
   function it answers and not which request; the number `req` of a packet is
   there for the statements only. Likewise `alone`: it says that no other call of
   the same index has been outstanding since this one was sent. -/
namespace Omap4Hal.Domx
open Lib
open List (count_append count_cons count_nil map_append map_cons map_nil mem_cons mem_map
  perm_iff_count)

/-- The fields of `struct omx_packet` that name a function or a message. -/
structure Packet where
  fxnIdx : UInt32
  msgId : UInt32
  req : Nat
  deriving DecidableEq, Repr

def initPacket (nFxnIdx : UInt32) (req : Nat) : Packet := ⟨nFxnIdx ||| 0x80000000, 0, req⟩

structure Pending where
  idx : UInt32
  req : Nat
  alone : Bool
  deriving DecidableEq, Repr

/-- A call that has returned, with the number of the request its reply answers. -/
structure Returned where
  idx : UInt32
  req : Nat
  alone : Bool
  reply : Nat
  deriving DecidableEq, Repr

/-- `sent` is the index of every request, by number; `waiting` lists the calls in
progress, each with its client. -/
structure RpcContext where
  sent : List UInt32
  waiting : List (Nat × Pending)
  requests : List Packet
  replies : List Packet
  pipes : List (UInt32 × Packet)
  returned : List Returned
  deriving DecidableEq, Repr

def RpcContext.initial : RpcContext := ⟨[], [], [], [], [], []⟩

inductive RpcAction where
  | send (client : Nat) (idx : UInt32)
  | answer (i : Nat)
  | forward
  | take (client : Nat)
  deriving DecidableEq, Repr

/-- The index is that of a stub call. -/
def isStub (idx : UInt32) : Bool := decide (idx < rpcOmxMaxFunctionList) && !isSkel idx

/-- A new call of index `idx` ends the exclusiveness of the others. -/
def Pending.disturb (idx : UInt32) (w : Pending) : Pending :=
  if w.idx = idx then { w with alone := false } else w

/-- One step of one party; `none` when the party cannot make it. -/
def rpcMatchStep (s : RpcContext) : RpcAction → Option RpcContext
  | .send client idx =>
    if isStub idx = false ∨ (takeTag client s.waiting).isSome then none
    else
      let w : Pending := ⟨idx, s.sent.length, decide (∀ e ∈ s.waiting, e.2.idx ≠ idx)⟩
      some { s with
        sent := s.sent ++ [idx]
        waiting := s.waiting.map (fun e => (e.1, e.2.disturb idx)) ++ [(client, w)]
        requests := s.requests ++ [initPacket idx s.sent.length] }
  | .answer i =>
    s.requests[i]?.map fun p =>
      { s with requests := s.requests.eraseIdx i, replies := s.replies ++ [p] }
  | .forward =>
    match s.replies with
    | [] => none
    | p :: replies =>
      some { s with replies := replies, pipes := s.pipes ++ [(fxnIndex p.fxnIdx, p)] }
  | .take client =>
    (takeTag client s.waiting).bind fun w =>
      (takeTag w.1.idx s.pipes).map fun r =>
        { s with
          waiting := w.2
          pipes := r.2
          returned := ⟨w.1.idx, w.1.req, w.1.alone, r.1.req⟩ :: s.returned }

/-! ## What is in flight -/

/-- Requests and replies on their way, with the index a pipe would be chosen by. -/
def RpcContext.inFlight (s : RpcContext) : List (UInt32 × Packet) :=
  (s.requests ++ s.replies).map (fun p => (fxnIndex p.fxnIdx, p)) ++ s.pipes

variable {idx : UInt32} {s : RpcContext} {p : Packet}

theorem fxnIndex_initPacket (h : isStub idx = true) (req : Nat) :
    fxnIndex (initPacket idx req).fxnIdx = idx := by
  have hall : ∀ i : Fin 21, fxnIndex (UInt32.ofNat i.val ||| 0x80000000) = UInt32.ofNat i.val := by
    decide
  simp only [isStub, Bool.and_eq_true, decide_eq_true_eq] at h
  have hlt : idx.toNat < 21 := by
    have := UInt32.lt_iff_toNat_lt.mp h.1
    simpa [rpcOmxMaxFunctionList] using this
  have := hall ⟨idx.toNat, hlt⟩
  simpa [initPacket] using this

theorem inFlight_answer {i : Nat} (h : s.requests[i]? = some p) :
    s.inFlight.Perm { s with requests := s.requests.eraseIdx i,
                             replies := s.replies ++ [p] }.inFlight := by
  obtain ⟨hi, hp⟩ := List.getElem?_eq_some_iff.mp h
  have hperm : s.requests.Perm (p :: s.requests.eraseIdx i) := by
    rw [← hp]
    exact (List.getElem_cons_eraseIdx_perm hi).symm
  have h₁ : (s.requests ++ s.replies).Perm (s.requests.eraseIdx i ++ (s.replies ++ [p])) := by
    apply perm_iff_count.mpr
    intro e
    simp only [count_append, hperm.count_eq, count_cons, count_nil]
    omega
  exact (h₁.map _).append_right s.pipes

theorem inFlight_forward {replies : List Packet} (h : s.replies = p :: replies) :
    s.inFlight.Perm { s with replies := replies,
                             pipes := s.pipes ++ [(fxnIndex p.fxnIdx, p)] }.inFlight := by
  simp only [RpcContext.inFlight, h, map_append, map_cons]
  apply perm_iff_count.mpr
  intro e
  simp only [count_append, count_cons, count_nil]
  omega

theorem inFlight_take {q : List (UInt32 × Packet)} (h : takeTag idx s.pipes = some (p, q)) :
    s.inFlight.Perm ((idx, p) :: { s with pipes := q }.inFlight) := by
  have hperm := takeTag_perm h
  apply perm_iff_count.mpr
  intro e
  simp only [RpcContext.inFlight, count_append, hperm.count_eq, count_cons]
  omega

/-! ## The invariant -/

/-- The number `req` is that of a request of index `idx`. -/
def RpcContext.isRequest (s : RpcContext) (req : Nat) (idx : UInt32) : Prop :=
  s.sent[req]? = some idx

/-- The numbers of all requests that are in flight or whose reply was returned. -/
def RpcContext.accounted (s : RpcContext) : List Nat :=
  s.inFlight.map (·.2.req) ++ s.returned.map (·.reply)

/-- What a call that has returned got: the reply to a request of its own index,
and to its own request if it was alone. -/
structure Answered (s : RpcContext) (x : Returned) : Prop where
  own : s.isRequest x.req x.idx
  reply : s.isRequest x.reply x.idx
  alone : x.alone = true → x.reply = x.req

structure MatchInv (s : RpcContext) : Prop where
  inFlight : ∀ e ∈ s.inFlight, s.isRequest e.2.req e.1
  waiting : ∀ e ∈ s.waiting, s.isRequest e.2.req e.2.idx
  returned : ∀ x ∈ s.returned, Answered s x
  nodup : s.accounted.Nodup
  bound : ∀ r ∈ s.accounted, r < s.sent.length
  balance : ∀ idx, (s.waiting.map (·.2.idx)).count idx = (s.inFlight.map (·.1)).count idx
  alone : ∀ e ∈ s.waiting, e.2.alone = true → ∀ f ∈ s.inFlight, f.1 = e.2.idx → f.2.req = e.2.req

theorem initial_matchInv : MatchInv RpcContext.initial := by
  refine ⟨?_, ?_, ?_, List.nodup_nil, ?_, fun _ => rfl, ?_⟩
  all_goals
    intro x hx
    cases hx

/-- Moving what is in flight from one place to the next changes nothing else. -/
theorem MatchInv.move {s' : RpcContext} (h : MatchInv s) (hperm : s.inFlight.Perm s'.inFlight)
    (hsent : s'.sent = s.sent) (hwait : s'.waiting = s.waiting) (hret : s'.returned = s.returned) :
    MatchInv s' := by
  have hacc : s.accounted.Perm s'.accounted := by
    simp only [RpcContext.accounted, hret]
    exact (hperm.map _).append_right _
  refine ⟨?_, ?_, ?_, ?_, ?_, ?_, ?_⟩
  · intro e he
    simp only [RpcContext.isRequest, hsent]
    exact h.inFlight e (hperm.mem_iff.mpr he)
  · intro e he
    simp only [RpcContext.isRequest, hsent]
    exact h.waiting e (hwait ▸ he)
  · intro x hx
    have := h.returned x (hret ▸ hx)
    refine ⟨?_, ?_, this.alone⟩
    · simp only [RpcContext.isRequest, hsent]
      exact this.own
    · simp only [RpcContext.isRequest, hsent]
      exact this.reply
  · exact hacc.nodup_iff.mp h.nodup
  · intro r hr
    rw [hsent]
    exact h.bound r (hacc.mem_iff.mpr hr)
  · intro idx
    rw [hwait, h.balance idx]
    exact (hperm.map _).count_eq idx
  · intro e he ha f hf
    exact h.alone e (hwait ▸ he) ha f (hperm.mem_iff.mpr hf)

theorem isRequest_append {req : Nat} {i : UInt32} (h : s.sent[req]? = some idx) :
    (s.sent ++ [i])[req]? = some idx := by
  obtain ⟨hlt, heq⟩ := List.getElem?_eq_some_iff.mp h
  rw [List.getElem?_append_left hlt]
  exact h

theorem disturb_fields (idx : UInt32) (w : Pending) :
    (w.disturb idx).idx = w.idx ∧ (w.disturb idx).req = w.req ∧
    ((w.disturb idx).alone = true → w.alone = true ∧ w.idx ≠ idx) := by
  unfold Pending.disturb
  split
  · exact ⟨rfl, rfl, fun h => by cases h⟩
  · next hne => exact ⟨rfl, rfl, fun h => ⟨h, hne⟩⟩

/-- The state after a call was sent. -/
def RpcContext.afterSend (s : RpcContext) (client : Nat) (idx : UInt32) : RpcContext :=
  { s with
    sent := s.sent ++ [idx]
    waiting := s.waiting.map (fun e => (e.1, e.2.disturb idx)) ++
      [(client, ⟨idx, s.sent.length, decide (∀ e ∈ s.waiting, e.2.idx ≠ idx)⟩)]
    requests := s.requests ++ [initPacket idx s.sent.length] }

theorem inFlight_send (hstub : isStub idx = true) (client : Nat) :
    (s.afterSend client idx).inFlight.Perm ((idx, initPacket idx s.sent.length) :: s.inFlight) := by
  apply perm_iff_count.mpr
  intro e
  simp only [RpcContext.inFlight, RpcContext.afterSend, map_append, map_cons,
    map_nil, count_append, count_cons, count_nil, fxnIndex_initPacket hstub]
  omega

theorem MatchInv.quiet (h : MatchInv s) (hno : ∀ e ∈ s.waiting, e.2.idx ≠ idx) {f : UInt32 × Packet}
    (hf : f ∈ s.inFlight) :
    f.1 ≠ idx := by
  intro hfi
  have hcount : (s.waiting.map (·.2.idx)).count idx = 0 := by
    rw [List.count_eq_zero]
    intro hm
    obtain ⟨w, hw, hwi⟩ := mem_map.mp hm
    exact hno w hw hwi
  have hpos : 0 < (s.inFlight.map (·.1)).count idx := by
    rw [List.count_pos_iff]
    exact mem_map.mpr ⟨f, hf, hfi⟩
  have hbal := h.balance idx
  omega

theorem afterSend_waiting (s : RpcContext) (client : Nat) (idx : UInt32) :
    (s.afterSend client idx).waiting.map (·.2.idx) = s.waiting.map (·.2.idx) ++ [idx] := by
  simp only [RpcContext.afterSend, map_append, List.map_map, map_cons, map_nil]
  congr 1
  apply List.map_congr_left
  intro e _
  exact (disturb_fields idx e.2).1

theorem send_matchInv (h : MatchInv s) (hstub : isStub idx = true) (client : Nat) :
    MatchInv (s.afterSend client idx) := by
  have hperm := inFlight_send (s := s) hstub client
  have hnew : (s.sent ++ [idx])[s.sent.length]? = some idx := by simp
  have hmem : ∀ e, e ∈ (s.afterSend client idx).inFlight →
      e = (idx, initPacket idx s.sent.length) ∨ e ∈ s.inFlight := by
    intro e he
    exact mem_cons.mp (hperm.mem_iff.mp he)
  have hacc : (s.afterSend client idx).accounted.Perm (s.sent.length :: s.accounted) :=
    (hperm.map (·.2.req)).append_right _
  refine ⟨?_, ?_, ?_, ?_, ?_, ?_, ?_⟩
  · intro e he
    rcases hmem e he with he | he
    · rw [he]
      exact hnew
    · exact isRequest_append (h.inFlight e he)
  · intro e he
    rcases List.mem_append.mp he with he | he
    · obtain ⟨w, hw, rfl⟩ := mem_map.mp he
      obtain ⟨hi, hr, _⟩ := disturb_fields idx w.2
      simp only [RpcContext.isRequest, hi, hr]
      exact isRequest_append (h.waiting w hw)
    · rw [List.mem_singleton.mp he]
      exact hnew
  · intro x hx
    have hx := h.returned x hx
    exact ⟨isRequest_append hx.own, isRequest_append hx.reply, hx.alone⟩
  · rw [hacc.nodup_iff, List.nodup_cons]
    refine ⟨fun hm => ?_, h.nodup⟩
    have := h.bound _ hm
    omega
  · intro r hr
    have hlen : (s.afterSend client idx).sent.length = s.sent.length + 1 := by
      simp [RpcContext.afterSend]
    rcases mem_cons.mp (hacc.mem_iff.mp hr) with hr | hr
    · omega
    · have := h.bound r hr
      omega
  · intro i
    rw [afterSend_waiting, (hperm.map (·.1)).count_eq]
    simp only [count_append, map_cons, count_cons, count_nil, h.balance i]
    omega
  · intro e he ha f hf hfi
    rcases List.mem_append.mp he with he | he
    · -- an older call that is still alone has another index than the new request
      obtain ⟨w, hw, rfl⟩ := mem_map.mp he
      obtain ⟨hi, hr, halone⟩ := disturb_fields idx w.2
      obtain ⟨hwa, hne⟩ := halone ha
      simp only [hi] at hfi
      simp only [hr]
      rcases hmem f hf with hf | hf
      · rw [hf] at hfi
        exact absurd hfi.symm hne
      · exact h.alone w hw hwa f hf hfi
    · -- the new call is alone, so nothing of its index was in flight
      rw [List.mem_singleton.mp he] at ha hfi ⊢
      simp only [decide_eq_true_eq] at ha
      rcases hmem f hf with hf | hf
      · rw [hf]
        rfl
      · exact absurd hfi (h.quiet ha hf)

theorem take_matchInv (h : MatchInv s) {client : Nat} {w : Pending} {waiting : List (Nat × Pending)}
    {q : List (UInt32 × Packet)} (hw : takeTag client s.waiting = some (w, waiting))
    (hp : takeTag w.idx s.pipes = some (p, q)) :
    MatchInv { s with
      waiting := waiting
      pipes := q
      returned := ⟨w.idx, w.req, w.alone, p.req⟩ :: s.returned } := by
  have hperm := inFlight_take hp
  have hwperm := takeTag_perm hw
  have hwmem : (client, w) ∈ s.waiting := hwperm.mem_iff.mpr List.mem_cons_self
  have hwsub : ∀ e ∈ waiting, e ∈ s.waiting := fun e he =>
    hwperm.mem_iff.mpr (List.mem_cons_of_mem _ he)
  have hpmem : (w.idx, p) ∈ s.inFlight := hperm.mem_iff.mpr List.mem_cons_self
  have hsub : ∀ e ∈ { s with pipes := q }.inFlight, e ∈ s.inFlight := fun e he =>
    hperm.mem_iff.mpr (List.mem_cons_of_mem _ he)
  have hacc : s.accounted.Perm (({ s with pipes := q } : RpcContext).inFlight.map (·.2.req) ++
      (p.req :: s.returned.map (·.reply))) :=
    ((hperm.map (·.2.req)).append_right _).trans List.perm_middle.symm
  refine ⟨fun e he => h.inFlight e (hsub e he), fun e he => h.waiting e (hwsub e he), ?_, ?_, ?_,
    ?_, fun e he ha f hf => h.alone e (hwsub e he) ha f (hsub f hf)⟩
  · intro x hx
    rcases mem_cons.mp hx with hx | hx
    · rw [hx]
      exact ⟨h.waiting _ hwmem, h.inFlight _ hpmem, fun ha => h.alone _ hwmem ha _ hpmem rfl⟩
    · exact ⟨(h.returned x hx).own, (h.returned x hx).reply, (h.returned x hx).alone⟩
  · exact hacc.nodup_iff.mp h.nodup
  · intro r hr
    exact h.bound r (hacc.mem_iff.mpr hr)
  · intro i
    have h₁ := h.balance i
    rw [(hperm.map (·.1)).count_eq, (hwperm.map (·.2.idx)).count_eq] at h₁
    simp only [map_cons, count_cons] at h₁
    show (waiting.map (·.2.idx)).count i =
      (({ s with pipes := q } : RpcContext).inFlight.map (·.1)).count i
    omega

theorem rpcMatchStep_inv {s' : RpcContext} {a : RpcAction} (h : MatchInv s)
    (hstep : rpcMatchStep s a = some s') : MatchInv s' := by
  cases a with
  | send client idx =>
    simp only [rpcMatchStep] at hstep
    split at hstep
    · cases hstep
    · next hok =>
      simp only [not_or, Bool.not_eq_false] at hok
      cases hstep
      exact send_matchInv h hok.1 client
  | answer i =>
    simp only [rpcMatchStep, Option.map_eq_some_iff] at hstep
    obtain ⟨p, hp, rfl⟩ := hstep
    exact h.move (inFlight_answer hp) rfl rfl rfl
  | forward =>
    simp only [rpcMatchStep] at hstep
    split at hstep
    · cases hstep
    · next p replies hr =>
      cases hstep
      exact h.move (inFlight_forward hr) rfl rfl rfl
  | take client =>
    simp only [rpcMatchStep, Option.bind_eq_some_iff, Option.map_eq_some_iff] at hstep
    obtain ⟨⟨w, waiting⟩, hw, ⟨p, q⟩, hp, rfl⟩ := hstep
    exact take_matchInv h hw hp

/-- In every interleaving of clients, remote side and callback thread, a call
returns the reply to a request of its own index, and to its own request if no
other call of that index was outstanding with it; and no reply is returned
twice. -/
theorem replies_matched {actions : List RpcAction} {s : RpcContext}
    (h : run rpcMatchStep RpcContext.initial actions = some s) :
    (∀ x ∈ s.returned, Answered s x) ∧ (s.returned.map (·.reply)).Nodup := by
  have hinv : MatchInv s :=
    run_induct (fun _ _ _ hs hstep => rpcMatchStep_inv hs hstep) initial_matchInv h
  exact ⟨hinv.returned, (List.nodup_append.mp hinv.nodup).2.1⟩

/-- Two clients call `GetState` and a third one `UseBuffer`, which is answered first. -/
def threeCalls : List RpcAction :=
  [.send 0 7, .send 1 7, .send 2 3, .answer 2, .answer 0, .forward, .answer 0, .take 2, .forward,
    .take 0, .forward, .take 1]

theorem replies_matched_three :
    ∃ s, run rpcMatchStep RpcContext.initial threeCalls = some s ∧
      s.returned = [⟨7, 1, false, 1⟩, ⟨7, 0, false, 0⟩, ⟨3, 2, true, 2⟩] ∧
      (∀ x ∈ s.returned, Answered s x) ∧ (s.returned.map (·.reply)).Nodup := by
  have h : run rpcMatchStep RpcContext.initial threeCalls =
      some ⟨[7, 7, 3], [], [], [], [],
        [⟨7, 1, false, 1⟩, ⟨7, 0, false, 0⟩, ⟨3, 2, true, 2⟩]⟩ := by decide
  exact ⟨_, h, rfl, replies_matched h⟩

/-- Two clients call `GetState`; the remote side and the thread keep the order, and
the second client reads the pipe first. -/
def crossedCalls : List RpcAction :=
  [.send 0 7, .send 1 7, .answer 0, .answer 0, .forward, .forward, .take 1, .take 0]

/-- Each of the two gets the reply to the other's request. -/
theorem replies_crossed :
    (∃ s, run rpcMatchStep RpcContext.initial crossedCalls = some s ∧
      s.returned = [⟨7, 0, false, 1⟩, ⟨7, 1, false, 0⟩]) ∧
    ¬ ∀ actions s, run rpcMatchStep RpcContext.initial actions = some s →
      ∀ x ∈ s.returned, x.reply = x.req := by
  have h : run rpcMatchStep RpcContext.initial crossedCalls =
      some ⟨[7, 7], [], [], [], [], [⟨7, 0, false, 1⟩, ⟨7, 1, false, 0⟩]⟩ := by decide
  refine ⟨⟨_, h, rfl⟩, ?_⟩
  intro hall
  have := hall crossedCalls _ h ⟨7, 1, false, 0⟩ (by decide)
  exact absurd this (by decide)

end Omap4Hal.Domx

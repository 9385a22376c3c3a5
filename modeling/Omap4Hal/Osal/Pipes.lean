import Mathlib.Algebra.Group.Int.Defs
import Omap4Hal.Lib.Lockstep

/- The pipes of the OSAL (`timm_osal_pipes.c`). The pipe of the operating system is a queue of
   bytes with complete transfers; the OSAL counts messages and bytes next to it. A message is
   put in front by writing it at the end and then moving all bytes that were there before, as
   many as `totalBytesInPipe` says, from the front to the end.

   Seen from outside a pipe is a queue with two ends (`dequeStep`). `pipe_deque_iff` says that
   it is one exactly as long as nothing is put in front: `TIMM_OSAL_WriteToFrontOfPipe` never
   returns `TIMM_OSAL_ERR_NONE`, although the bytes are where they belong
   (`writeToFrontOfPipe_bytes`). -/
namespace Omap4Hal.Osal
open Lib

inductive OsalError where
  | none
  | parameter
  | pipeEmpty
  | unknown
  deriving DecidableEq, Repr

/-- `TIMM_OSAL_PIPE` with the bytes in the pipe of the system. The counters are far from their
limits, as the pipe is small. -/
structure Pipe where
  bytes : List UInt8 := []
  messageCount : Int := 0
  totalBytesInPipe : Int := 0
  deriving DecidableEq

def writeToPipe (p : Pipe) (message : List UInt8) (size : UInt32) : OsalError × Pipe :=
  if size = 0 then (.parameter, p)
  else (.none, ⟨p.bytes ++ message, p.messageCount + 1, p.totalBytesInPipe + size.toNat⟩)

/-- A counter as a number of bytes for `read` and `write`. -/
def sizeT (n : Int) : Nat := (n % 2 ^ 32).toNat

/-- `temp` is what the memory from `TIMM_OSAL_Malloc` has in it. -/
def writeToFrontOfPipe (p : Pipe) (message : List UInt8) (size : UInt32) (temp : Nat → UInt8) :
    OsalError × Pipe :=
  if size = 0 then (.parameter, p)
  else
    let bytes := p.bytes ++ message
    let messageCount := p.messageCount + 1
    if messageCount > 1 then
      let n := sizeT p.totalBytesInPipe
      let got := bytes.take n
      let back := got ++ (List.range (n - got.length)).map fun i => temp (got.length + i)
      -- the size of what was moved is compared with the size of the message
      if n ≠ size.toNat then
        (.parameter, ⟨bytes.drop n ++ back, messageCount, p.totalBytesInPipe⟩)
      else
        (.unknown, ⟨bytes.drop n ++ back, messageCount, p.totalBytesInPipe + size.toNat⟩)
    else (.unknown, ⟨bytes, messageCount, p.totalBytesInPipe⟩)

/-- The error and the bytes that were read, if there are any. On an empty pipe the call waits
forever, unless `timeout` is `TIMM_OSAL_NO_SUSPEND` and `messageCount` is 0. -/
def readFromPipe (p : Pipe) (size : UInt32) (timeout : Int) :
    Option ((OsalError × Option (List UInt8)) × Pipe) :=
  if size = 0 then some ((.parameter, none), p)
  else if p.messageCount = 0 ∧ timeout = 0 then some ((.pipeEmpty, none), p)
  else if p.bytes = [] then none
  else some ((.none, some (p.bytes.take size.toNat)),
    ⟨p.bytes.drop size.toNat, p.messageCount - 1, p.totalBytesInPipe - size.toNat⟩)

/-! ## Messages of one size -/

structure Message (n : UInt32) where
  bytes : List UInt8
  length : bytes.length = n.toNat

inductive Call (n : UInt32) where
  | write (m : Message n)
  | writeToFront (m : Message n) (temp : Nat → UInt8)
  | read (timeout : Int)

def step {n : UInt32} (p : Pipe) : Call n → Option ((OsalError × Option (List UInt8)) × Pipe)
  | .write m => some ((((writeToPipe p m.bytes n).1, none), (writeToPipe p m.bytes n).2))
  | .writeToFront m temp =>
    some ((((writeToFrontOfPipe p m.bytes n temp).1, none),
      (writeToFrontOfPipe p m.bytes n temp).2))
  | .read timeout => readFromPipe p n timeout

def dequeStep {n : UInt32} (d : List (Message n)) :
    Call n → Option ((OsalError × Option (List UInt8)) × List (Message n))
  | .write m => some ((.none, none), d ++ [m])
  | .writeToFront m _ => some ((.none, none), m :: d)
  | .read timeout =>
    match d with
    | [] => if timeout = 0 then some ((.pipeEmpty, none), []) else none
    | m :: d => some ((.none, some m.bytes), d)

/-- The counters are right. -/
def Counted {n : UInt32} (p : Pipe) (d : List (Message n)) : Prop :=
  p.messageCount = d.length ∧ p.totalBytesInPipe = p.bytes.length

/-- The pipe holds the messages. -/
structure Holds {n : UInt32} (p : Pipe) (d : List (Message n)) : Prop where
  bytes : p.bytes = d.flatMap Message.bytes
  counted : Counted p d

variable {n : UInt32} {p : Pipe} {d : List (Message n)}

theorem Holds.write (h : Holds p d) (hn : n ≠ 0) (m : Message n) :
    (writeToPipe p m.bytes n).1 = .none ∧ Holds (writeToPipe p m.bytes n).2 (d ++ [m]) := by
  obtain ⟨hcount, htotal⟩ := h.counted
  rw [writeToPipe, if_neg hn]
  refine ⟨rfl, ?_, ?_, ?_⟩
  · simp [h.bytes]
  · simp [hcount]
  · simp [htotal, m.length]

theorem Holds.read {m : Message n} (h : Holds p (m :: d)) (hn : n ≠ 0) (timeout : Int) :
    ∃ p', readFromPipe p n timeout = some ((.none, some m.bytes), p') ∧ Holds p' d := by
  obtain ⟨hcount, htotal⟩ := h.counted
  have hbytes : p.bytes = m.bytes ++ d.flatMap Message.bytes := h.bytes
  have hpos : 0 < n.toNat := by
    rw [Nat.pos_iff_ne_zero]
    exact fun h0 => hn (UInt32.toNat_inj.mp h0)
  have hsome : p.messageCount ≠ 0 := by
    rw [hcount, List.length_cons]
    omega
  have hne : p.bytes ≠ [] := by
    intro hnil
    have hlen := congrArg List.length hbytes
    rw [hnil, List.length_append, m.length, List.length_nil] at hlen
    omega
  refine ⟨⟨d.flatMap Message.bytes, p.messageCount - 1, p.totalBytesInPipe - n.toNat⟩, ?_, rfl,
    ?_, ?_⟩
  · rw [readFromPipe, if_neg hn, if_neg (fun hc => hsome hc.1), if_neg hne, hbytes, ← m.length,
      List.take_left, List.drop_left]
  · simp [hcount]
  · have hlen : (p.bytes.length : Int) = n.toNat + (d.flatMap Message.bytes).length := by
      rw [hbytes, List.length_append, m.length]
      omega
    show p.totalBytesInPipe - n.toNat = (d.flatMap Message.bytes).length
    omega

theorem Holds.read_empty (h : Holds p ([] : List (Message n))) (hn : n ≠ 0) (timeout : Int) :
    readFromPipe p n timeout = if timeout = 0 then some ((.pipeEmpty, none), p) else none := by
  obtain ⟨hcount, -⟩ := h.counted
  have hnil : p.bytes = [] := h.bytes
  rw [readFromPipe, if_neg hn]
  by_cases htime : timeout = 0
  · rw [if_pos ⟨hcount, htime⟩, if_pos htime]
  · rw [if_neg (fun hc => htime hc.2), if_pos hnil, if_neg htime]

/-! ## Putting in front -/

theorem writeToFrontOfPipe_bytes (h : Holds p d) (hsmall : p.bytes.length < 2 ^ 32) (hn : n ≠ 0)
    (m : Message n) (temp : Nat → UInt8) :
    (writeToFrontOfPipe p m.bytes n temp).2.bytes = (m :: d).flatMap Message.bytes := by
  obtain ⟨hcount, htotal⟩ := h.counted
  have hsize : sizeT p.totalBytesInPipe = p.bytes.length := by
    rw [sizeT, htotal]
    omega
  rw [writeToFrontOfPipe, if_neg hn]
  dsimp only
  by_cases hmany : p.messageCount + 1 > 1
  · rw [if_pos hmany, hsize, List.take_left, List.drop_left]
    split <;> simp [h.bytes]
  · have hnil : d = [] := by
      rw [hcount] at hmany
      exact List.length_eq_zero_iff.mp (by omega)
    rw [if_neg hmany, h.bytes, hnil]
    simp

theorem writeToFrontOfPipe_fails (p : Pipe) (message : List UInt8) (size : UInt32)
    (temp : Nat → UInt8) : (writeToFrontOfPipe p message size temp).1 ≠ .none := by
  rw [writeToFrontOfPipe]
  dsimp only
  split
  · simp
  split
  · split <;> simp
  · simp

/-! ## Runs -/

def Call.isFront : Call n → Bool
  | .writeToFront _ _ => true
  | _ => false

/-- A pipe with messages of one size is a queue with two ends exactly as long as no message is
put in front. -/
theorem pipe_deque_iff (n : UInt32) (hn : n ≠ 0) (calls : List (Call n)) :
    Lockstep Counted step dequeStep {} [] calls ↔
      Guarded (fun p c => (step p c).map Prod.snd) (fun _ c => c.isFront = false) {} calls := by
  apply lockstep_iff_guarded (J := Holds)
  · intro p d h
    exact h.counted
  · intro p d c h hback
    cases c with
    | write m =>
      obtain ⟨hok, hholds⟩ := h.write hn m
      exact .inr ⟨_, _, _, by rw [step, hok], rfl, hholds⟩
    | writeToFront m temp => cases hback
    | read timeout =>
      cases d with
      | nil =>
        have hread := h.read_empty hn timeout
        by_cases htime : timeout = 0
        · rw [if_pos htime] at hread
          exact .inr ⟨_, _, _, hread, if_pos htime, h⟩
        · rw [if_neg htime] at hread
          exact .inl ⟨hread, if_neg htime⟩
      | cons m d =>
        obtain ⟨p', hread, hholds⟩ := h.read hn timeout
        exact .inr ⟨_, _, _, hread, rfl, hholds⟩
  · intro p d c h hfront
    cases c with
    | write m => exact absurd rfl hfront
    | writeToFront m temp =>
      refine ⟨_, _, _, _, rfl, rfl, ?_⟩
      intro heq
      exact writeToFrontOfPipe_fails p m.bytes n temp (congrArg Prod.fst heq)
    | read timeout => exact absurd rfl hfront
  · exact ⟨rfl, rfl, rfl⟩

def oneByte (b : UInt8) : Message 1 := ⟨[b], rfl⟩

/-- Two messages are written and read, and the pipe is empty then. -/
theorem pipe_deque_twoMessages : Lockstep Counted step dequeStep {} []
    [.write (oneByte 1), .write (oneByte 2), .read 0, .read (-1), .read 0] :=
  (pipe_deque_iff 1 (by decide) _).mpr (.cons rfl rfl (.cons rfl rfl (.cons rfl rfl
    (.cons rfl rfl (.cons rfl rfl trivial)))))

/-- Two messages are put in front of an empty pipe: both calls fail, and the second message is
behind the first, as no bytes were counted. -/
theorem pipe_not_deque :
    run (fun p c => (step p c).map Prod.snd) {}
        [.writeToFront (oneByte 1) fun _ => 0, .writeToFront (oneByte 2) fun _ => 0] =
      some ⟨[1, 2], 2, 0⟩ ∧
    ¬ ∀ n : UInt32, n ≠ 0 → ∀ calls : List (Call n),
      Lockstep Counted step dequeStep {} [] calls := by
  refine ⟨by decide, ?_⟩
  intro hall
  have h := hall 1 (by decide) [.writeToFront (oneByte 1) fun _ => 0]
  exact absurd h.2.1 (by decide)

end Omap4Hal.Osal

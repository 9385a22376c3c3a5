import Omap4Hal.Lib.Run

/- The message queue of libtiutils (`MessageQueue.cpp`): messages go through a pipe, `put` writes
   one and `get` reads one, by one writer and one reader.

   The operating system may transfer fewer bytes than a call of `read` or `write` asks for,
   at least one, so that each of the two functions has a loop. Every call of `read` or `write`
   is one step, in any order of the writer and the reader, and how much it transfers is an
   input. Neither loop moves its cursor `p`, and the loop of `put` ends with the size of the
   pointer in the place of the size of the message.

   A message is 32 bytes in memory, its words from the low byte up. -/
namespace Omap4Hal.Tiutils.MessageQueue

open Lib

/-! ## Messages -/

/-- `Message`, with the four bytes that the compiler leaves before `id`. -/
structure Message where
  command : UInt32
  arg1 : UInt32
  arg2 : UInt32
  arg3 : UInt32
  arg4 : UInt32
  pad : UInt32 := 0
  id : UInt64
  deriving DecidableEq, Repr

/-- The lowest `n` bytes of a number, from the low byte up. -/
def bytesOf : Nat → Nat → List UInt8
  | 0, _ => []
  | n + 1, x => UInt8.ofNat (x % 256) :: bytesOf n (x / 256)

def valueOf : List UInt8 → Nat
  | [] => 0
  | b :: bs => b.toNat + 256 * valueOf bs

def Message.bytes (m : Message) : List UInt8 :=
  bytesOf 4 m.command.toNat ++ bytesOf 4 m.arg1.toNat ++ bytesOf 4 m.arg2.toNat ++
    bytesOf 4 m.arg3.toNat ++ bytesOf 4 m.arg4.toNat ++ bytesOf 4 m.pad.toNat ++
    bytesOf 8 m.id.toNat

/-- What the bytes of a buffer are as a message. -/
def Message.ofBytes (bs : List UInt8) : Message where
  command := UInt32.ofNat (valueOf (bs.take 4))
  arg1 := UInt32.ofNat (valueOf ((bs.drop 4).take 4))
  arg2 := UInt32.ofNat (valueOf ((bs.drop 8).take 4))
  arg3 := UInt32.ofNat (valueOf ((bs.drop 12).take 4))
  arg4 := UInt32.ofNat (valueOf ((bs.drop 16).take 4))
  pad := UInt32.ofNat (valueOf ((bs.drop 20).take 4))
  id := UInt64.ofNat (valueOf ((bs.drop 24).take 8))

/-- `sizeof(*msg)` -/
def sizeMessage : Nat := 32
/-- `sizeof(msg)` -/
def sizePointer : Nat := 4

/-! ## The queue -/

/-- The pipe, and where the writer and the reader are in their loops: the message that is being
put with the count `bytes`; the buffer of the caller with the count `read_bytes`. `puts` and `gots`
are the messages of the calls that have returned with success. -/
structure Sys where
  fdRead : Bool := true
  fdWrite : Bool := true
  pipe : List UInt8 := []
  writer : Option (Message × Nat) := none
  reader : Option (List UInt8 × Nat) := none
  puts : List Message := []
  gots : List Message := []

inductive Act where
  /-- A call of `put`, and of `get` with the buffer as it is then; without a message, the pointer
  is NULL. -/
  | put (msg : Option Message)
  | get (msg : Option Message)
  /-- A `write` and a `read` that transfer `n` bytes, and those that fail. -/
  | write (n : Nat)
  | writeError
  | read (n : Nat)
  | readError

/-- One step. `none` if there is no such call, or it has to wait. -/
def step (s : Sys) : Act → Option Sys
  | .put msg =>
    match s.writer, msg with
    | some _, _ => none
    | none, none => some s
    | none, some m => if s.fdWrite then some { s with writer := some (m, 0) } else some s
  | .get msg =>
    match s.reader, msg with
    | some _, _ => none
    | none, none => some s
    | none, some m => if s.fdRead then some { s with reader := some (m.bytes, 0) } else some s
  | .write n =>
    match s.writer with
    | none => none
    | some (m, bytes) =>
      if 0 < n ∧ n ≤ sizeMessage - bytes then
        let s' := { s with pipe := s.pipe ++ m.bytes.take n }
        if bytes + n < sizePointer then some { s' with writer := some (m, bytes + n) }
        else some { s' with writer := none, puts := s.puts ++ [m] }
      else none
  | .writeError => s.writer.map fun _ => { s with writer := none }
  | .read n =>
    match s.reader with
    | none => none
    | some (buf, readBytes) =>
      if 0 < n ∧ n ≤ sizeMessage - readBytes ∧ n ≤ s.pipe.length then
        let buf' := s.pipe.take n ++ buf.drop n
        let s' := { s with pipe := s.pipe.drop n }
        if readBytes + n < sizeMessage then some { s' with reader := some (buf', readBytes + n) }
        else some { s' with reader := none, gots := s.gots ++ [.ofBytes buf'] }
      else none
  | .readError => s.reader.map fun _ => { s with reader := none }

/-- The condition: no transfer is short. -/
def Full (s : Sys) : Act → Prop
  | .write n => ∀ m bytes, s.writer = some (m, bytes) → n = sizeMessage - bytes
  | .read n => ∀ buf readBytes, s.reader = some (buf, readBytes) → n = sizeMessage - readBytes
  | _ => True

/-! ## A message and its bytes -/

@[simp] theorem length_bytesOf (n x : Nat) : (bytesOf n x).length = n := by
  induction n generalizing x with
  | zero => rfl
  | succ n ih => simp [bytesOf, ih]

theorem valueOf_bytesOf {n x : Nat} (h : x < 256 ^ n) : valueOf (bytesOf n x) = x := by
  induction n generalizing x with
  | zero =>
    have : x = 0 := by omega
    rw [this]
    rfl
  | succ n ih =>
    have hdiv : x / 256 < 256 ^ n := by
      apply Nat.div_lt_of_lt_mul
      rw [Nat.pow_succ] at h
      omega
    have hlow : (UInt8.ofNat (x % 256)).toNat = x % 256 :=
      UInt8.toNat_ofNat_of_lt' (Nat.mod_lt _ (by decide))
    show (UInt8.ofNat (x % 256)).toNat + 256 * valueOf (bytesOf n (x / 256)) = x
    rw [hlow, ih hdiv]
    omega

@[simp] theorem length_bytes (m : Message) : m.bytes.length = sizeMessage := by
  simp [Message.bytes, sizeMessage]

theorem word_bytesOf (x : UInt32) : UInt32.ofNat (valueOf (bytesOf 4 x.toNat)) = x := by
  rw [valueOf_bytesOf (show x.toNat < 256 ^ 4 from x.toNat_lt)]
  exact UInt32.ofNat_toNat

theorem ofBytes_bytes (m : Message) : Message.ofBytes m.bytes = m := by
  have hid : UInt64.ofNat (valueOf (bytesOf 8 m.id.toNat)) = m.id := by
    rw [valueOf_bytesOf (show m.id.toNat < 256 ^ 8 from m.id.toNat_lt)]
    exact UInt64.ofNat_toNat
  calc Message.ofBytes m.bytes
      = { command := UInt32.ofNat (valueOf (bytesOf 4 m.command.toNat))
          arg1 := UInt32.ofNat (valueOf (bytesOf 4 m.arg1.toNat))
          arg2 := UInt32.ofNat (valueOf (bytesOf 4 m.arg2.toNat))
          arg3 := UInt32.ofNat (valueOf (bytesOf 4 m.arg3.toNat))
          arg4 := UInt32.ofNat (valueOf (bytesOf 4 m.arg4.toNat))
          pad := UInt32.ofNat (valueOf (bytesOf 4 m.pad.toNat))
          id := UInt64.ofNat (valueOf (bytesOf 8 m.id.toNat)) } := rfl
    _ = m := by simp only [word_bytesOf, hid]

/-! ## Every run without short transfers -/

/-- Neither loop is in the middle of a message, and the pipe has what was put and not yet got. -/
structure Inv (s : Sys) : Prop where
  writer : ∀ m bytes, s.writer = some (m, bytes) → bytes = 0
  reader : ∀ buf readBytes, s.reader = some (buf, readBytes) →
    readBytes = 0 ∧ buf.length = sizeMessage
  pipe : ∃ pending, s.puts = s.gots ++ pending ∧ s.pipe = pending.flatMap Message.bytes

theorem inv_init (fdRead fdWrite : Bool) : Inv { fdRead := fdRead, fdWrite := fdWrite } :=
  ⟨nofun, nofun, [], rfl, rfl⟩

section

variable {s s' : Sys}

theorem inv_write (h : Inv s) {m : Message} (hpipe : s'.pipe = s.pipe ++ m.bytes)
    (hputs : s'.puts = s.puts ++ [m]) (hgots : s'.gots = s.gots) (hwriter : s'.writer = none)
    (hreader : s'.reader = s.reader) : Inv s' := by
  obtain ⟨pending, hput, hold⟩ := h.pipe
  refine ⟨?_, hreader ▸ h.reader, pending ++ [m], ?_, ?_⟩
  · rw [hwriter]
    nofun
  · rw [hputs, hgots, hput, List.append_assoc]
  · rw [hpipe, hold, List.flatMap_append, List.flatMap_singleton]

theorem inv_read (h : Inv s) {buf : List UInt8} (hlen : sizeMessage ≤ s.pipe.length)
    (hbuf : buf.length = sizeMessage) (hpipe : s'.pipe = s.pipe.drop sizeMessage)
    (hgots : s'.gots =
      s.gots ++ [.ofBytes (s.pipe.take sizeMessage ++ buf.drop sizeMessage)])
    (hputs : s'.puts = s.puts) (hreader : s'.reader = none) (hwriter : s'.writer = s.writer) :
    Inv s' := by
  obtain ⟨pending, hput, hold⟩ := h.pipe
  cases pending with
  | nil =>
    rw [hold] at hlen
    exact absurd hlen (by decide)
  | cons m rest =>
    have hcons : s.pipe = m.bytes ++ rest.flatMap Message.bytes := by
      rw [hold, List.flatMap_cons]
    have htake : s.pipe.take sizeMessage = m.bytes := by
      rw [hcons]
      exact List.take_left' (length_bytes m)
    have hdrop : s.pipe.drop sizeMessage = rest.flatMap Message.bytes := by
      rw [hcons]
      exact List.drop_left' (length_bytes m)
    have hrest : buf.drop sizeMessage = [] := List.drop_eq_nil_of_le (by omega)
    refine ⟨hwriter ▸ h.writer, ?_, rest, ?_, ?_⟩
    · rw [hreader]
      nofun
    · rw [hputs, hput, hgots, htake, hrest, List.append_nil, ofBytes_bytes, List.append_assoc,
        List.singleton_append]
    · rw [hpipe, hdrop]

theorem step_inv {a : Act} (h : Inv s) (hfull : Full s a) (hstep : step s a = some s') :
    Inv s' := by
  cases a with
  | put msg =>
    simp only [step] at hstep
    split at hstep
    · cases hstep
    · cases hstep
      exact h
    next m _ =>
      split at hstep
      · cases hstep
        refine ⟨?_, h.reader, h.pipe⟩
        intro m' bytes heq
        cases heq
        rfl
      · cases hstep
        exact h
  | get msg =>
    simp only [step] at hstep
    split at hstep
    · cases hstep
    · cases hstep
      exact h
    next m _ =>
      split at hstep
      · cases hstep
        refine ⟨h.writer, ?_, h.pipe⟩
        intro buf readBytes heq
        cases heq
        exact ⟨rfl, length_bytes m⟩
      · cases hstep
        exact h
  | write n =>
    simp only [step] at hstep
    split at hstep
    · cases hstep
    next m bytes hwriter =>
      obtain rfl := h.writer m bytes hwriter
      obtain rfl : n = sizeMessage := hfull m 0 hwriter
      split at hstep
      next =>
        rw [if_neg (by decide)] at hstep
        cases hstep
        refine inv_write h ?_ rfl rfl rfl rfl
        show s.pipe ++ m.bytes.take sizeMessage = _
        rw [List.take_of_length_le (Nat.le_of_eq (length_bytes m))]
      · cases hstep
  | writeError =>
    obtain ⟨_, _, rfl⟩ := Option.map_eq_some_iff.mp hstep
    exact ⟨nofun, h.reader, h.pipe⟩
  | read n =>
    simp only [step] at hstep
    split at hstep
    · cases hstep
    next buf readBytes hreader =>
      obtain ⟨rfl, hbuf⟩ := h.reader buf readBytes hreader
      obtain rfl : n = sizeMessage := hfull buf 0 hreader
      split at hstep
      next hn =>
        rw [if_neg (by decide)] at hstep
        cases hstep
        exact inv_read h hn.2.2 hbuf rfl rfl rfl rfl rfl
      · cases hstep
  | readError =>
    obtain ⟨_, _, rfl⟩ := Option.map_eq_some_iff.mp hstep
    exact ⟨h.writer, nofun, h.pipe⟩

end

/-- In every run without short transfers, what `get` has returned is a prefix of what was put. -/
theorem gots_prefix_puts (fdRead fdWrite : Bool) (acts : List Act) (s : Sys)
    (hfull : Guarded step Full { fdRead := fdRead, fdWrite := fdWrite } acts)
    (h : run step { fdRead := fdRead, fdWrite := fdWrite } acts = some s) :
    s.gots <+: s.puts := by
  have hinv := hfull.run_induct (I := Inv) (fun _ _ _ hs hG hstep => step_inv hs hG hstep)
    (inv_init fdRead fdWrite) h
  obtain ⟨pending, hput, _⟩ := hinv.pipe
  exact ⟨pending, hput.symm⟩

def message (command : UInt32) : Message := ⟨command, 1, 2, 3, 4, 0, 5⟩

/-- Two messages, of which one is taken out. -/
def fullRun : List Act :=
  [.put (some (message 7)), .write 32, .put (some (message 8)), .get (some (message 0)),
    .write 32, .read 32]

theorem gots_prefix_puts_fullRun :
    ∃ s, run step {} fullRun = some s ∧ s.gots <+: s.puts ∧ s.gots = [message 7] := by
  refine ⟨_, rfl, gots_prefix_puts true true fullRun _ ?_ rfl, by decide⟩
  refine .cons trivial rfl (.cons ?_ rfl (.cons trivial rfl (.cons trivial rfl
    (.cons ?_ rfl (.cons ?_ rfl trivial)))))
  · intro m bytes heq
    cases heq
    rfl
  · intro m bytes heq
    cases heq
    rfl
  · intro buf readBytes heq
    cases heq
    rfl

/-- A message that is read in two parts: the second part overwrites the first. -/
def shortReads : List Act :=
  [.put (some (message 7)), .write 32, .get (some (message 0)), .read 16, .read 16]

/-- Eight messages of which 4 bytes are written each: together they are one that was never put. -/
def shortWrites : List Act :=
  [1, 2, 3, 4, 5, 6, 7, 8].flatMap (fun i => [.put (some (message i)), .write 4])
    ++ [.get (some (message 0)), .read 32]

theorem short_transfers_not_prefix :
    (∃ s, run step {} shortReads = some s ∧ ¬ s.gots <+: s.puts) ∧
    (∃ s, run step {} shortWrites = some s ∧ ¬ s.gots <+: s.puts) := by
  refine ⟨⟨_, rfl, ?_⟩, ⟨_, rfl, ?_⟩⟩
  · intro hprefix
    have heq : Message.ofBytes _ = message 7 := (List.cons_prefix_cons.mp hprefix).1
    revert heq
    decide
  · intro hprefix
    have heq : Message.ofBytes _ = message 1 := (List.cons_prefix_cons.mp hprefix).1
    revert heq
    decide

end Omap4Hal.Tiutils.MessageQueue

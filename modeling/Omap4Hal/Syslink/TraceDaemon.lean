import Mathlib.Algebra.Group.Nat.Defs
import Mathlib.Data.List.Basic
import Mathlib.Data.List.TakeWhile

/- The printing of the traces of the remote cores (`printRemoteTraces` of `SyslinkTraceDaemon.c`). A
   core writes its traces into a ring in shared memory. The thread of the core copies them into the
   scratch buffer, which the threads share, behind the name of the core, and prints them line by
   line: before each line it writes the name over what has been printed.

   In every run of the threads, whatever the cores write and whatever is left in the scratch buffer,
   they stay inside the buffers and print every line behind the name (`traces_printed`), up to its
   first zero, and without a log file no more than the 511 bytes that `Osal_printf` (`OsalPrint.c`)
   has room for. -/
namespace Omap4Hal.Syslink.TraceDaemon

open Function (update)
open List (append_assoc append_nil cons_append length_append length_cons length_drop mem_cons)
open Option (bind_eq_bind bind_some)

def newline : UInt8 := 10

def traceBufferSize : Nat := 0x10000

/-- The bytes behind the two positions. -/
def dataSize : Nat := traceBufferSize - 8

def tempBufferSize : Nat := traceBufferSize + 128

/-- `buffer` of `Osal_printf`, which ends with a zero. -/
def osalBufferSize : Nat := 512

/-! ## The functions -/

/-- `memcpy` out of a buffer; `none` beyond its end, also in the following. -/
def read (buffer : List UInt8) (pos n : Nat) : Option (List UInt8) :=
  if pos + n ≤ buffer.length then some ((buffer.drop pos).take n) else none

/-- `memcpy` into a buffer. -/
def write (buffer : List UInt8) (pos : Nat) (bytes : List UInt8) : Option (List UInt8) :=
  if pos + bytes.length ≤ buffer.length then
    some (buffer.take pos ++ bytes ++ buffer.drop (pos + bytes.length))
  else none

/-- The scratch buffer with the name and the traces, and `numOfBytesInBuffer`. -/
def copyTraces (name traceBuffer temp : List UInt8) (readPos writePos : Nat) :
    Option (List UInt8 × Nat) := do
  let temp ← write temp 0 name
  if readPos < writePos then
    let bytes ← read traceBuffer readPos (writePos - readPos)
    let temp ← write temp name.length bytes
    some (temp, name.length + (writePos - readPos))
  else
    let numBytesToCopy := (dataSize + 2 ^ 32 - readPos) % 2 ^ 32
    let bytes ← read traceBuffer readPos numBytesToCopy
    let temp ← write temp name.length bytes
    let bytes ← read traceBuffer 0 writePos
    let temp ← write temp (name.length + numBytesToCopy) bytes
    some (temp, name.length + numBytesToCopy + writePos)

/-- The search for a newline. -/
def lineEnd (temp : List UInt8) (numOfBytesInBuffer i : Nat) : Option Nat := do
  let c ← temp[i]?
  if c ≠ newline ∧ i < numOfBytesInBuffer then lineEnd temp numOfBytesInBuffer (i + 1) else some i
termination_by numOfBytesInBuffer - i

/-- `"%s"` with `fprintf` to the log file, or with `Osal_printf` if there is none. -/
def print (log : Bool) (bytes : List UInt8) : List UInt8 :=
  let text := bytes.takeWhile (· ≠ 0)
  if log then text else text.take (osalBufferSize - 1)

/-- What is printed of a line that ends at `i`, and the scratch buffer with the name before the
next. -/
def printLine (log : Bool) (name temp : List UInt8) (printStart i : Nat) :
    Option (List UInt8 × List UInt8) := do
  let c ← temp[i]?
  let temp := if c ≠ newline then temp.set i newline else temp
  let saveChar ← temp[i + 1]?
  let temp := temp.set (i + 1) 0
  let printed := print log (temp.drop printStart)
  let temp ← write (temp.set (i + 1) saveChar) (i + 1 - name.length) name
  some (printed, temp)

/-- The loop over the lines, for a number of passes. -/
def printLines (log : Bool) (name : List UInt8) (numOfBytesInBuffer : Nat) :
    Nat → List UInt8 → Nat → Nat → Option (List UInt8 × List UInt8)
  | 0, _, _, _ => none
  | fuel + 1, temp, printStart, i =>
    if i < numOfBytesInBuffer then do
      let i ← lineEnd temp numOfBytesInBuffer i
      let (printed, temp) ← printLine log name temp printStart i
      let (rest, temp) ←
        printLines log name numOfBytesInBuffer fuel temp (i + 1 - name.length) (i + 1)
      some (printed ++ rest, temp)
    else some ([], temp)

/-- What a thread does between `sem_wait` and `sem_post`. -/
def round (log : Bool) (name traceBuffer temp : List UInt8) (readPos writePos : Nat) :
    Option (List UInt8 × List UInt8) := do
  let (temp, numOfBytesInBuffer) ← copyTraces name traceBuffer temp readPos writePos
  printLines log name numOfBytesInBuffer (tempBufferSize + 1) temp 0 name.length

/-! ## Runs -/

/-- A core's thread finds `seenPos` when it wakes, and the ring and `writePos` once it has the
semaphore. -/
structure Turn where
  core : Nat
  seenPos : Nat
  traceBuffer : List UInt8
  writePos : Nat

/-- The read positions of the cores, and the scratch buffer. -/
structure Sys where
  readPos : Nat → Nat := fun _ => 0
  temp : List UInt8

/-- What the threads print, in the order in which they have the semaphore. -/
def run (log : Bool) (name : Nat → List UInt8) (s : Sys) : List Turn → Option (List UInt8 × Sys)
  | [] => some ([], s)
  | t :: turns =>
    if s.readPos t.core = t.seenPos then run log name s turns
    else do
      let (printed, temp) ←
        round log (name t.core) t.traceBuffer s.temp (s.readPos t.core) t.writePos
      let (rest, s) ← run log name ⟨update s.readPos t.core t.writePos, temp⟩ turns
      some (printed ++ rest, s)

/-! ## What is to be printed -/

/-- The bytes of the ring from one position on to before the other; all of it if they agree. -/
def between (traceBuffer : List UInt8) (readPos writePos : Nat) : List UInt8 :=
  if readPos < writePos then (traceBuffer.drop readPos).take (writePos - readPos)
  else traceBuffer.drop readPos ++ traceBuffer.take writePos

/-- The lines of a text that goes on from `line`; the last one may lack its newline. -/
def linesFrom (line : List UInt8) : List UInt8 → List (List UInt8)
  | [] => if line = [] then [] else [line]
  | c :: cs => if c = newline then line :: linesFrom [] cs else linesFrom (line ++ [c]) cs

/-- Each line behind the name. -/
def shown (log : Bool) (name bytes : List UInt8) : List UInt8 :=
  (linesFrom [] bytes).flatMap fun line => print log (name ++ line ++ [newline])

def shownIn (log : Bool) (name : Nat → List UInt8) (readPos : Nat → Nat) : List Turn → List UInt8
  | [] => []
  | t :: turns =>
    if readPos t.core = t.seenPos then shownIn log name readPos turns
    else
      shown log (name t.core) (between t.traceBuffer (readPos t.core) t.writePos) ++
        shownIn log name (update readPos t.core t.writePos) turns

/-- The ring has its size, and the position is in it. -/
structure Turn.Ok (t : Turn) : Prop where
  size : t.traceBuffer.length = dataSize
  inside : t.writePos ≤ dataSize

/-! ## Copying -/

variable {name traceBuffer temp done line bytes post us vs : List UInt8}
  {readPos writePos i num fuel : Nat} {log : Bool}

theorem write_eq (done : List UInt8) (h : bytes.length ≤ vs.length) :
    write (done ++ vs) done.length bytes = some (done ++ bytes ++ vs.drop bytes.length) := by
  rw [write, if_pos (by rw [length_append]; omega), List.take_left, ← List.drop_drop,
    List.drop_left]

/-- Behind what has been written there is what was in the buffer before. -/
theorem write_next (done : List UInt8) (h : done.length + bytes.length ≤ temp.length) :
    write (done ++ temp.drop done.length) done.length bytes =
      some (done ++ bytes ++ temp.drop (done ++ bytes).length) := by
  rw [write_eq done (by rw [length_drop]; omega), List.drop_drop, length_append]

theorem read_eq (h : readPos + num ≤ traceBuffer.length) :
    read traceBuffer readPos num = some ((traceBuffer.drop readPos).take num) := if_pos h

theorem copyTraces_eq (hname : name.length ≤ 134) (htemp : temp.length = tempBufferSize)
    (hsize : traceBuffer.length = dataSize) (hread : readPos ≤ dataSize)
    (hwrite : writePos ≤ dataSize) (hdone : done = name ++ between traceBuffer readPos writePos) :
    done.length + 2 ≤ tempBufferSize ∧
      copyTraces name traceBuffer temp readPos writePos =
        some (done ++ temp.drop done.length, done.length) := by
  subst hdone
  have hroom : tempBufferSize = dataSize + 136 := rfl
  have hput : write temp 0 name = some (name ++ temp.drop name.length) :=
    write_next [] (show 0 + name.length ≤ temp.length by omega)
  rw [copyTraces, hput]
  by_cases hlt : readPos < writePos
  · have hcount : ((traceBuffer.drop readPos).take (writePos - readPos)).length =
        writePos - readPos := by
      rw [List.length_take_of_le]
      rw [length_drop]
      omega
    simp only [bind_eq_bind, bind_some, between, if_pos hlt]
    rw [read_eq (by omega), bind_some, write_next name (by omega), length_append, hcount]
    exact ⟨by omega, rfl⟩
  · have hnum : (dataSize + 2 ^ 32 - readPos) % 2 ^ 32 = dataSize - readPos := by
      have hsmall : dataSize < 2 ^ 32 := by decide
      omega
    have hrest : (traceBuffer.drop readPos).length = dataSize - readPos := by
      rw [length_drop, hsize]
    have hfront : (traceBuffer.take writePos).length = writePos :=
      List.length_take_of_le (by omega)
    have hlen : (name ++ traceBuffer.drop readPos).length = name.length + (dataSize - readPos) := by
      rw [length_append, hrest]
    simp only [bind_eq_bind, bind_some, between, if_neg hlt, hnum]
    rw [read_eq (by omega), bind_some, ← hrest, List.take_length, write_next name (by omega),
      bind_some, read_eq (by omega), bind_some, List.drop_zero, hrest, ← hlen,
      write_next (name ++ traceBuffer.drop readPos) (by omega), ← append_assoc, length_append, hlen,
      hfront]
    exact ⟨by omega, rfl⟩

/-! ## The lines -/

theorem linesFrom_append (hline : newline ∉ bytes) (line : List UInt8) :
    linesFrom line (bytes ++ post) = linesFrom (line ++ bytes) post := by
  induction bytes generalizing line with
  | nil => simp
  | cons c cs ih =>
    obtain ⟨hc, hcs⟩ := not_or.mp (mt mem_cons.mpr hline)
    rw [cons_append, linesFrom, if_neg (Ne.symm hc), ih hcs, append_assoc]
    rfl

theorem shown_line (hline : newline ∉ line) (name bytes : List UInt8) :
    shown log name (line ++ newline :: bytes) =
      print log (name ++ line ++ [newline]) ++ shown log name bytes := by
  rw [shown, linesFrom_append hline, linesFrom, if_pos rfl, List.flatMap_cons]
  rfl

theorem shown_last (hline : newline ∉ line) (hne : line ≠ []) (name : List UInt8) :
    shown log name line = print log (name ++ line ++ [newline]) := by
  have hlines : linesFrom [] (line ++ []) = _ := linesFrom_append hline []
  rw [append_nil, List.nil_append] at hlines
  rw [shown, hlines, linesFrom, if_neg hne, List.flatMap_singleton]

theorem lineEnd_eq {c : UInt8} (hline : newline ∉ line)
    (hstop : c = newline ∨ num = us.length + line.length) (hnum : us.length + line.length ≤ num) :
    lineEnd (us ++ line ++ c :: vs) num us.length = some (us.length + line.length) := by
  induction line generalizing us with
  | nil =>
    have hend : ¬ (c ≠ newline ∧ us.length < num) := by
      rintro ⟨hc, hlt⟩
      exact Nat.ne_of_gt hlt (hstop.resolve_left hc)
    rw [lineEnd]
    simp [hend]
  | cons x line ih =>
    obtain ⟨hx, hline⟩ := not_or.mp (mt mem_cons.mpr hline)
    have hone : (us ++ [x]).length + line.length = us.length + (x :: line).length := by
      simp only [length_append, length_cons, List.length_nil]
      omega
    have hgo : x ≠ newline ∧ us.length < num := by
      refine ⟨Ne.symm hx, ?_⟩
      rw [length_cons] at hnum
      omega
    have hrest : lineEnd (us ++ [x] ++ line ++ c :: vs) num (us ++ [x]).length = some _ :=
      ih hline (hone ▸ hstop) (hone ▸ hnum)
    rw [hone] at hrest
    rw [← hrest, lineEnd]
    simp [hgo]

theorem print_zero (bytes vs : List UInt8) : print log (bytes ++ 0 :: vs) = print log bytes := by
  have htext : (bytes ++ 0 :: vs).takeWhile (· ≠ 0) = bytes.takeWhile (· ≠ 0) := by
    induction bytes with
    | nil => rfl
    | cons c cs ih => simp only [cons_append, List.takeWhile_cons, ih]
  rw [print, htext]
  rfl

theorem printLine_eq (log : Bool) (name line us vs : List UInt8) (c x : UInt8)
    (hname : name.length ≤ us.length + 1) {printStart : Nat}
    (hstart : us.drop printStart = name ++ line) (hle : printStart ≤ us.length) :
    ∃ us', us'.length = us.length + 1 ∧ us'.drop (us.length + 1 - name.length) = name ∧
      printLine log name (us ++ c :: x :: vs) printStart us.length =
        some (print log (name ++ line ++ [newline]), us' ++ x :: vs) := by
  have htemp : (if c ≠ newline then (us ++ c :: x :: vs).set us.length newline
      else us ++ c :: x :: vs) = us ++ newline :: x :: vs := by
    split
    · simp
    · next h => rw [not_not.mp h]
  have hset : ∀ y z, (us ++ newline :: y :: vs).set (us.length + 1) z =
      us ++ newline :: z :: vs := by
    intro y z
    rw [List.set_append_right _ _ (Nat.le_succ _), Nat.succ_sub (Nat.le_refl _), Nat.sub_self]
    rfl
  have hprinted : print log ((us ++ newline :: 0 :: vs).drop printStart) =
      print log (name ++ line ++ [newline]) := by
    rw [List.drop_append_of_le_length hle, hstart, ← print_zero (name ++ line ++ [newline]) vs,
      append_assoc (name ++ line)]
    rfl
  have hat : (us ++ c :: x :: vs)[us.length]? = some c := by simp
  have hnext : (us ++ newline :: x :: vs)[us.length + 1]? = some x := by simp
  -- the name goes over the end of what has been printed
  obtain ⟨done, past, hsplit, hover⟩ : ∃ done past, us ++ [newline] = done ++ past ∧
      past.length = name.length := by
    refine ⟨_, _, (List.take_append_drop (us.length + 1 - name.length) _).symm, ?_⟩
    rw [length_drop, length_append, List.length_singleton]
    omega
  have hlen := congrArg List.length hsplit
  rw [length_append, length_append, List.length_singleton, hover] at hlen
  have hdone : us.length + 1 - name.length = done.length := by omega
  have hwrite : write (us ++ newline :: x :: vs) done.length name =
      some (done ++ name ++ x :: vs) := by
    have hput := write_eq done (show name.length ≤ (past ++ x :: vs).length by
      rw [length_append, hover]
      omega)
    rwa [← append_assoc, ← hsplit, append_assoc us, List.drop_left' hover] at hput
  refine ⟨done ++ name, by rw [length_append, hlen], hdone ▸ List.drop_left, ?_⟩
  simp only [printLine, bind_eq_bind, hat, bind_some, htemp, hnext, hset, hprinted,
    hdone, hwrite]

/-- What is to be printed begins with a line, and at least two bytes of the buffer follow it. -/
theorem first_line (rest : List UInt8) (hpost : 2 ≤ post.length) :
    ∃ line tail c x vs, rest = line ++ tail ∧ newline ∉ line ∧
      (tail = [] ∨ ∃ bytes, tail = newline :: bytes) ∧ tail ++ post = c :: x :: vs := by
  have htwo : ∀ tail : List UInt8, ∃ c x vs, tail ++ post = c :: x :: vs := by
    intro tail
    have hlen : 2 ≤ (tail ++ post).length := by
      rw [length_append]
      omega
    generalize tail ++ post = l at hlen ⊢
    rcases l with _ | ⟨c, _ | ⟨x, vs⟩⟩
    · cases hlen
    · cases Nat.le_of_succ_le_succ hlen
    · exact ⟨c, x, vs, rfl⟩
  by_cases hmem : newline ∈ rest
  · obtain ⟨line, bytes, rfl, hline⟩ := List.eq_append_cons_of_mem hmem
    obtain ⟨c, x, vs, hvs⟩ := htwo (newline :: bytes)
    exact ⟨line, _, c, x, vs, rfl, hline, .inr ⟨bytes, rfl⟩, hvs⟩
  · obtain ⟨c, x, vs, hvs⟩ := htwo []
    exact ⟨rest, [], c, x, vs, (append_nil rest).symm, hmem, .inl rfl, hvs⟩

theorem printLines_eq {printStart : Nat} (rest : List UInt8) (hfuel : rest.length < fuel)
    (hroom : us.length + rest.length ≤ tempBufferSize) (hpost : 2 ≤ post.length)
    (hstart : us.drop printStart = name) (hle : printStart + name.length = us.length) :
    ∃ temp, temp.length = (us ++ rest ++ post).length ∧
      printLines log name (us.length + rest.length) fuel (us ++ rest ++ post) printStart us.length =
        some (shown log name rest, temp) := by
  induction fuel generalizing us rest printStart with
  | zero => cases hfuel
  | succ fuel ih =>
    by_cases hrest : rest = []
    · subst hrest
      exact ⟨_, rfl, by rw [printLines, if_neg (by simp)]; rfl⟩
    have hpos := List.length_pos_iff.mpr hrest
    obtain ⟨line, tail, c, x, vs, rfl, hline, htail, hvs⟩ := first_line rest hpost
    have hlen : (us ++ line).length = us.length + line.length := length_append
    have hsplit : us ++ (line ++ tail) ++ post = us ++ line ++ c :: x :: vs := by
      rw [← hvs]
      simp only [append_assoc]
    have htotal : (line ++ tail).length = line.length + tail.length := length_append
    rw [htotal] at hroom hfuel hpos
    have hend : lineEnd (us ++ line ++ c :: x :: vs) (us.length + (line.length + tail.length))
        us.length = some (us ++ line).length := by
      rw [hlen]
      refine lineEnd_eq hline (htail.symm.imp (fun h => ?_) fun h => ?_) (by omega)
      · obtain ⟨bytes, rfl⟩ := h
        exact (List.cons.inj hvs).1.symm
      · rw [h]
        rfl
    have hbefore : (us ++ line).drop printStart = name ++ line := by
      rw [List.drop_append_of_le_length (by omega), hstart]
    obtain ⟨us', hus', hstart', hprint⟩ :=
      printLine_eq log name line (us ++ line) vs c x (by omega) hbefore (by omega)
    rw [hsplit, htotal, printLines, if_pos (by omega), hend]
    simp only [bind_eq_bind, bind_some, hprint]
    rcases htail with rfl | ⟨bytes, rfl⟩
    · -- the last line, without its newline
      obtain ⟨n, rfl⟩ : ∃ n, fuel = n + 1 := ⟨fuel - 1, by omega⟩
      rw [append_nil, printLines, if_neg (by rw [hlen]; exact by simp),
        shown_last hline (by simpa using hrest)]
      refine ⟨us' ++ x :: vs, ?_, by rw [bind_some, append_nil]⟩
      simp only [length_append, length_cons, hus']
      omega
    · rw [cons_append] at hvs
      obtain ⟨rfl, hafter⟩ := List.cons.inj hvs
      rw [length_cons] at hroom hfuel
      obtain ⟨temp, htemp, hrun⟩ := ih bytes (by omega) (by omega) hstart' (by omega)
      have hnum : us'.length + bytes.length =
          us.length + (line.length + (newline :: bytes).length) := by
        rw [length_cons]
        omega
      rw [hnum, hus', append_assoc, hafter] at hrun
      rw [hrun, shown_line hline]
      refine ⟨temp, ?_, rfl⟩
      rw [htemp, append_assoc us', hafter]
      simp only [length_append, length_cons, hus']
      omega

theorem round_eq (log : Bool) (hname : name.length ≤ 134) (htemp : temp.length = tempBufferSize)
    (hsize : traceBuffer.length = dataSize) (hread : readPos ≤ dataSize)
    (hwrite : writePos ≤ dataSize) :
    ∃ temp', temp'.length = tempBufferSize ∧ round log name traceBuffer temp readPos writePos =
      some (shown log name (between traceBuffer readPos writePos), temp') := by
  obtain ⟨hlen, hcopy⟩ := copyTraces_eq hname htemp hsize hread hwrite rfl
  have hroom := hlen
  rw [length_append] at hroom
  obtain ⟨temp', htemp', hprint⟩ := printLines_eq (between traceBuffer readPos writePos)
    (show _ < tempBufferSize + 1 by omega) (by omega)
    (show 2 ≤ (temp.drop (name ++ between traceBuffer readPos writePos).length).length by
      rw [length_drop]
      omega)
    (List.drop_zero : name.drop 0 = name) (Nat.zero_add _)
  refine ⟨temp', htemp'.trans ?_, ?_⟩
  · rw [length_append, length_drop]
    omega
  · rw [← length_append] at hprint
    rw [round, hcopy]
    exact hprint

theorem traces_printed (log : Bool) (name : Nat → List UInt8)
    (hname : ∀ core, (name core).length ≤ 134) (s : Sys) (htemp : s.temp.length = tempBufferSize)
    (hread : ∀ core, s.readPos core ≤ dataSize)
    (turns : List Turn) (hturns : ∀ t ∈ turns, t.Ok) :
    ∃ s', s'.temp.length = tempBufferSize ∧
      run log name s turns = some (shownIn log name s.readPos turns, s') := by
  induction turns generalizing s with
  | nil => exact ⟨s, htemp, rfl⟩
  | cons t turns ih =>
    obtain ⟨ht, hturns⟩ := List.forall_mem_cons.mp hturns
    by_cases hseen : s.readPos t.core = t.seenPos
    · rw [run, if_pos hseen, shownIn, if_pos hseen]
      exact ih s htemp hread hturns
    obtain ⟨temp, htemp, hround⟩ :=
      round_eq log (hname t.core) htemp ht.size (hread t.core) ht.inside
    have hnext : ∀ core, update s.readPos t.core t.writePos core ≤ dataSize := by
      refine (Function.forall_update_iff _ fun _ pos => pos ≤ dataSize).mpr ⟨ht.inside, ?_⟩
      intro core _
      exact hread core
    obtain ⟨s', hs', hrun⟩ :=
      ih ⟨update s.readPos t.core t.writePos, temp⟩ htemp hnext hturns
    refine ⟨s', hs', ?_⟩
    rw [run, if_neg hseen, shownIn, if_neg hseen, hround]
    simp only [bind_eq_bind, bind_some, hrun]

def twoTurns : List Turn :=
  [⟨0, 3, [1, 10, 2] ++ List.replicate (dataSize - 3) 0, 3⟩,
    ⟨1, 2, [3, 10] ++ List.replicate (dataSize - 2) 0, 2⟩]

theorem twoTurns_ok : ∀ t ∈ twoTurns, t.Ok := by
  have hlen : ∀ l : List UInt8, l.length ≤ dataSize →
      (l ++ List.replicate (dataSize - l.length) 0).length = dataSize := by
    intro l hl
    rw [length_append, List.length_replicate]
    omega
  exact List.forall_mem_cons.mpr ⟨⟨hlen [1, 10, 2] (by decide), by decide⟩,
    List.forall_mem_singleton.mpr ⟨hlen [3, 10] (by decide), by decide⟩⟩

theorem traces_printed_two :
    ∃ s', s'.temp.length = tempBufferSize ∧
      run false (fun core => [65 + UInt8.ofNat core])
        ⟨fun _ => 0, List.replicate tempBufferSize 7⟩ twoTurns =
          some ([65, 1, 10, 65, 2, 10, 66, 3, 10], s') := by
  have hshown : shownIn false (fun core => [65 + UInt8.ofNat core]) (fun _ => 0) twoTurns =
      [65, 1, 10, 65, 2, 10, 66, 3, 10] := by decide +kernel
  rw [← hshown]
  exact traces_printed false _ (by simp) ⟨_, _⟩ List.length_replicate (by simp) twoTurns twoTurns_ok

end Omap4Hal.Syslink.TraceDaemon

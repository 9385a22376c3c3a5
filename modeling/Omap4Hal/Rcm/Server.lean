import Mathlib.Data.List.Nodup
import Omap4Hal.Lib.Run

/- The job streams of an RcmServer (rcm/RcmServer.c). The server thread takes the
   messages from its queue. One for the default pool, if that has no worker, it executes
   itself; any other it dispatches to the ready queue of a pool, or, if it belongs to a
   job that has a message on the way, to the queue of that job. A worker that has executed
   a message of a job puts the next one of that job on a ready queue.

   A thread is at a place in its loop (`Pc`), and the threads take their steps in any
   order. What stands under the gate of the instance is one step. The semaphore, list and
   message queue operations succeed; what a message function gives back, and whether the
   heap has room for a new job, is an input.

   A job stream object is known by the number of its allocation: `jobs` are the objects
   and `jobList` those that are in the list of the instance. `Sequential` says what is to
   hold of every state. -/
namespace Omap4Hal.Rcm.Server

open Function (update)

/-! ## Messages -/

/-- The type of a message (`RcmClient_Desc_*`); the release of a job has the id in its data. -/
inductive Desc where
  | rcmMsg
  | dpc
  | symAdd
  | symIdx
  | cmd
  | jobAcq
  | jobRel (jobId : UInt16)
  deriving DecidableEq

/-- The status a message is returned with (`RcmServer_Status_*`). -/
inductive Status where
  | success
  | invalidFxn
  | symbolNotFound
  | invalidMsgType
  | msgFxnErr
  | error
  | unprocessed
  | jobNotFound
  | poolNotFound
  deriving DecidableEq

structure Message where
  poolId : UInt16
  jobId : UInt16
  desc : Desc
  deriving DecidableEq

/-- A message the server has taken: the number of its arrival, and the job stream object that
had its job id then. -/
structure Packet extends Message where
  tag : Nat
  stream : Option Nat
  deriving DecidableEq

/-- How the server is done with a message: it has been executed and then returned with a
status, or freed, or it is returned without being executed. -/
inductive Ending where
  | executed (reply : Option Status)
  | refused (status : Status)
  deriving DecidableEq

/-! ## The instance -/

structure JobStream where
  jobId : UInt16 := 0
  empty : Bool := false
  msgQue : List Packet := []

inductive Tid where
  | server
  | worker (pool i : Nat)
  deriving DecidableEq

inductive Pc where
  /-- At the semaphore of the pool; the server thread, at its message queue. -/
  | wait
  /-- Takes the next message from the ready queue. -/
  | get
  /-- In `_RcmServer_process`. -/
  | exec (p : Packet)
  /-- At the end of it, with the status to be set if the message is returned. -/
  | reply (p : Packet) (status : Option Status)
  /-- Has executed a message of a job, and looks for the next one. -/
  | next (p : Packet)
  deriving DecidableEq

structure Sys where
  /-- The job id tracker. -/
  jobId : UInt16 := 0xFFFF
  jobs : Nat → JobStream := fun _ => {}
  allocated : Nat := 0
  jobList : List Nat := []
  serverQue : List Message := []
  readyQueue : Nat → List Packet := fun _ => []
  sem : Nat → Nat := fun _ => 0
  pc : Tid → Pc := fun _ => .wait
  /-- How many messages the server has taken. -/
  taken : Nat := 0
  /-- The messages taken, those that a thread has begun to execute, and those the server is
  done with, each in this order. -/
  arrivals : List Packet := []
  began : List Packet := []
  ended : List (Packet × Ending) := []
  /-- The messages that waited for their turn when their job was released. -/
  dropped : List Packet := []

def Sys.goto (s : Sys) (t : Tid) (q : Pc) : Sys := { s with pc := update s.pc t q }

/-- The thread begins to execute the message. -/
def Sys.begin (s : Sys) (t : Tid) (p : Packet) : Sys :=
  { s with began := s.began ++ [p] }.goto t (.exec p)

def Sys.finish (s : Sys) (p : Packet) (e : Ending) : Sys := { s with ended := s.ended ++ [(p, e)] }

/-- `List_put` on the ready queue of a pool, and the post of its semaphore. -/
def Sys.put (s : Sys) (k : Nat) (p : Packet) : Sys :=
  { s with
    readyQueue := update s.readyQueue k (s.readyQueue k ++ [p])
    sem := update s.sem k (s.sem k + 1) }

def Sys.setJob (s : Sys) (g : Nat) (j : JobStream) : Sys := { s with jobs := update s.jobs g j }

def Sys.findJob (s : Sys) (jobId : UInt16) : Option Nat :=
  s.jobList.find? fun g => (s.jobs g).jobId = jobId

/-! ## Pools -/

/-- The number of worker threads in the default pool and in each of the static ones. -/
structure Pools where
  defaultPool : Nat
  workerPools : List Nat

def Pools.count (c : Pools) (k : Nat) : Nat := (c.defaultPool :: c.workerPools).getD k 0

inductive Err where
  | fail
  | jobIdNotFound
  | poolIdNotFound

def Err.status : Err → Status
  | .fail => .error
  | .jobIdNotFound => .jobNotFound
  | .poolIdNotFound => .poolNotFound

/-- Static pools have bit 15 set. -/
def getPool (c : Pools) (poolId : UInt16) : Except Err Nat :=
  if poolId &&& 0x8000 ≠ 0 then
    let offset := (poolId &&& 0x00FF).toNat
    if offset < c.workerPools.length + 1 then .ok offset else .error .poolIdNotFound
  else .error .fail

/-! ## The server thread -/

def dispatch (c : Pools) (s : Sys) (p : Packet) : Except Err Sys :=
  match getPool c p.poolId with
  | .error e => .error e
  | .ok k =>
    if p.jobId = 0 then .ok (s.put k p)
    else
      match s.findJob p.jobId with
      | none => .error .jobIdNotFound
      | some g =>
        if (s.jobs g).empty then
          .ok ((s.setJob g { s.jobs g with empty := false }).put k p)
        else
          .ok (s.setJob g { s.jobs g with msgQue := (s.jobs g).msgQue ++ [p] })

/-- The message as the server takes it. -/
def Sys.packet (s : Sys) (m : Message) : Packet :=
  { m with
    tag := s.taken
    stream := if m.jobId = 0 then none else s.findJob m.jobId }

def Sys.take (s : Sys) (m : Message) (rest : List Message) : Sys :=
  { s with
    serverQue := rest
    taken := s.taken + 1
    arrivals := s.arrivals ++ [s.packet m] }

/-- The message is executed by the server thread itself: it is for the default pool, and
that has no worker. -/
def Pools.InBand (c : Pools) (m : Message) : Prop := m.poolId = 0x8000 ∧ c.defaultPool = 0

instance (c : Pools) (m : Message) : Decidable (c.InBand m) := inferInstanceAs (Decidable (_ ∧ _))

def serverGet (c : Pools) (s : Sys) : Option Sys :=
  match s.serverQue with
  | [] => none
  | m :: rest =>
    if c.InBand m then some ((s.take m rest).begin .server (s.packet m))
    else
      match dispatch c (s.take m rest) (s.packet m) with
      | .ok s' => some s'
      | .error e => some ((s.take m rest).finish (s.packet m) (.refused e.status))

/-! ## The execution of a message -/

def Sys.inUse (s : Sys) (jobId : UInt16) : Bool := s.jobList.any fun g => (s.jobs g).jobId = jobId

/-- The loop that looks for a job id: the tracker after it, and the id if one was found. -/
def newJobId (inUse : UInt16 → Bool) : Nat → UInt16 → UInt16 × Option UInt16
  | 0, tracker => (tracker, none)
  | count + 1, tracker =>
    let jobId := if tracker = 0xFFFF then 1 else tracker + 1
    if inUse jobId then newJobId inUse count jobId else (jobId, some jobId)

/-- `heap`: there is room for a job stream object and its gate. -/
def acqJobId (s : Sys) (heap : Bool) : Sys × Status :=
  match newJobId s.inUse 0xFFFF s.jobId with
  | (tracker, none) => ({ s with jobId := tracker }, .error)
  | (tracker, some jobId) =>
    if heap then
      ({ s with
        jobId := tracker
        jobs := update s.jobs s.allocated { jobId := jobId, empty := true, msgQue := [] }
        allocated := s.allocated + 1
        jobList := s.jobList ++ [s.allocated] }, .success)
    else ({ s with jobId := tracker }, .error)

/-- Takes the job out of the list and returns its messages. -/
def Sys.drop (s : Sys) (g : Nat) : Sys :=
  { s with
    jobList := s.jobList.erase g
    jobs := update s.jobs g { s.jobs g with msgQue := [] }
    ended := s.ended ++ (s.jobs g).msgQue.map fun p => (p, .refused .unprocessed)
    dropped := s.dropped ++ (s.jobs g).msgQue }

def relJobId (s : Sys) (jobId : UInt16) : Sys × Status :=
  match s.findJob jobId with
  | none => (s, .jobNotFound)
  | some g => (s.drop g, .success)

/-- What is decided outside: the status that a message function leads to, if its message is
returned, and whether the heap has room. -/
structure Env where
  status : Option Status := none
  heap : Bool := true

def process (s : Sys) (p : Packet) (e : Env) : Sys × Option Status :=
  match p.desc with
  | .jobAcq => ((acqJobId s e.heap).1, some (acqJobId s e.heap).2)
  | .jobRel jobId => ((relJobId s jobId).1, some (relJobId s jobId).2)
  | _ => (s, e.status)

/-! ## The worker threads -/

/-- Takes messages from the queue of a job until one is for a pool that exists: the messages
that are not, and that one with its pool and the messages behind it. -/
def nextMessage (c : Pools) :
    List Packet → List (Packet × Ending) × Option (Packet × Nat × List Packet)
  | [] => ([], none)
  | p :: rest =>
    match getPool c p.poolId with
    | .error e => ((p, .refused e.status) :: (nextMessage c rest).1, (nextMessage c rest).2)
    | .ok k => ([], some (p, k, rest))

/-- The end of a worker's loop, under the gate. A message that was returned is still in
`packet`, and the worker then does not wait for the semaphore. -/
def workerNext (c : Pools) (s : Sys) (t : Tid) (p : Packet) : Sys :=
  match s.findJob p.jobId with
  | none => s.goto t .wait
  | some g =>
    match nextMessage c (s.jobs g).msgQue with
    | (refused, none) =>
      { s.setJob g { s.jobs g with msgQue := [], empty := true } with
        ended := s.ended ++ refused }.goto t (if refused = [] then .wait else .get)
    | (refused, some (p', k, rest)) =>
      ({ s.setJob g { s.jobs g with msgQue := rest } with
        ended := s.ended ++ refused }.put k p').goto t .wait

/-- The next step of a thread; `none` if it has to wait. -/
def advance (c : Pools) (s : Sys) (t : Tid) (e : Env) : Option Sys :=
  match s.pc t, t with
  | .wait, .server => serverGet c s
  | .wait, .worker k i =>
    if c.count k ≤ i ∨ s.sem k = 0 then none
    else some ({ s with sem := update s.sem k (s.sem k - 1) }.goto (.worker k i) .get)
  | .get, .server => none
  | .get, .worker k i =>
    match s.readyQueue k with
    | [] => some (s.goto (.worker k i) .wait)
    | p :: rest => some ({ s with readyQueue := update s.readyQueue k rest }.begin (.worker k i) p)
  | .exec p, t => some ((process s p e).1.goto t (.reply p (process s p e).2))
  | .reply p status, .server => some ((s.finish p (.executed status)).goto .server .wait)
  | .reply p status, .worker k i =>
    some ((s.finish p (.executed status)).goto (.worker k i)
      (if p.jobId = 0 then .wait else .next p))
  | .next _, .server => none
  | .next p, .worker k i => some (workerNext c s (.worker k i) p)

/-! ## Runs -/

inductive Act where
  /-- A client puts a message on the queue of the server. -/
  | arrive (m : Message)
  | thread (t : Tid) (e : Env)

def step (c : Pools) (s : Sys) : Act → Option Sys
  | .arrive m => some { s with serverQue := s.serverQue ++ [m] }
  | .thread t e => advance c s t e

/-- The message that a thread executes. -/
def Pc.running : Pc → Option Packet
  | .exec p => some p
  | .reply p _ => some p
  | _ => none

/-- Where a message can be that the server has taken. -/
inductive Place where
  | waiting (g : Nat)
  | ready (k : Nat)
  | exec (t : Tid)
  | ended (e : Ending)
  deriving DecidableEq

def Sys.At (s : Sys) (p : Packet) : Place → Prop
  | .waiting g => p ∈ (s.jobs g).msgQue
  | .ready k => p ∈ s.readyQueue k
  | .exec t => (s.pc t).running = some p
  | .ended e => (p, e) ∈ s.ended

/-- On a ready queue or being executed. -/
def Place.atWork : Place → Bool
  | .ready _ => true
  | .exec _ => true
  | _ => false

/-- The messages of a job. -/
def messagesOf (g : Nat) (l : List Packet) : List Packet := l.filter fun p => p.stream = some g

structure Sequential (s : Sys) : Prop where
  /-- Every message is in one place, and once in a list. -/
  lossless : ∀ p ∈ s.arrivals, ∃! l, s.At p l
  arrivals : s.arrivals.Nodup
  ready : ∀ k, (s.readyQueue k).Nodup
  /-- At most one message of a job is on a ready queue or being executed. -/
  single : ∀ g p p' l l', p.stream = some g → p'.stream = some g → s.At p l → s.At p' l' →
    l.atWork = true → l'.atWork = true → p = p'
  /-- The messages of a job begin in the order in which they arrived. -/
  order : ∀ g, (messagesOf g s.began).Sublist (messagesOf g s.arrivals)
  /-- What still waited when its job was released is returned once, as unprocessed, and is
  not executed. -/
  dropped : ∀ p ∈ s.dropped, s.ended.filter (fun x => x.1 = p) = [(p, .refused .unprocessed)] ∧
    p ∉ s.began

end Omap4Hal.Rcm.Server

import Omap4Hal.Rcm.ServerPlaces
import Omap4Hal.Rcm.Symbols

/- What an RcmServer does with every message it takes (rcm/RcmServer.c): the message is put
   on its reply queue, or freed, or nothing at all happens to it. The job streams and the
   threads are those of `Server`; here a semaphore post may fail, a message may be of any
   type, and the function index of a message may lead to an address that is no function.

   A post that fails leaves the message on the ready queue. `_RcmServer_dispatch` then
   reports an error, for which the server thread returns the message; a worker goes round
   its loop again, now with the ready queue in the place of the queue of the job.

   A call of an address that is no function ends the server. -/
namespace Omap4Hal.Rcm.Accounts

open Lib
open Omap4Hal.Rcm.Server
open Function (update)

/-! ## Messages -/

/-- A message as it stands in the queue of the server: the descriptor, the pool and job id, and
the lower half of its first data word. -/
structure Wire where
  desc : UInt16
  poolId : UInt16
  jobId : UInt16
  data : UInt16 := 0
  deriving DecidableEq

/-- The message type in a descriptor. -/
def messageType (desc : UInt16) : UInt16 := (0x0F00 &&& desc) >>> 8

/-- The message as `_RcmServer_process` understands it. A type that it does not know is left alone
as `SYM_ADD` is. -/
def decode (m : Wire) : Message where
  poolId := m.poolId
  jobId := m.jobId
  desc :=
    match messageType m.desc with
    | 1 => .rcmMsg
    | 2 => .dpc
    | 4 => .symIdx
    | 5 => .cmd
    | 6 => .jobAcq
    | 7 => .jobRel m.data
    | _ => .symAdd

/-- What is decided outside: what `_RcmServer_getFxnAddr` reports for the index of the message and
what a call of the address gives (nothing, where it is no function), whether a name is in the
tables, whether the heap has room, and the results of the semaphore posts in their order; those
that are not listed succeed. -/
structure Outside where
  fxn : Except Int (Option Int) := .ok (some 0)
  symbol : Bool := true
  heap : Bool := true
  posts : List Bool := []

def Outside.post (e : Outside) : Bool := e.posts.headD true

/-- What becomes of a message that is executed. -/
inductive Outcome where
  | replies (status : Status)
  /-- It is freed; its function has returned `result`. -/
  | frees (result : Int)
  | nothing
  /-- The server comes to its end, for a `DPC` after the reply. -/
  | crashes (replied : Bool)
  deriving DecidableEq

/-- The status of a message whose function index was refused. -/
def refusal (rval : Int) : Status :=
  if rval = Symbols.eInvalidFxnIdx then .invalidFxn else .error

/-- `_RcmServer_process`, for the messages that do not touch the jobs. The descriptor of a `DPC`
keeps its type, which is read as the status of a symbol that was not found. -/
def outcome (e : Outside) : Desc → Outcome
  | .rcmMsg =>
    match e.fxn with
    | .error rval => .replies (refusal rval)
    | .ok none => .crashes false
    | .ok (some result) => .replies (if result < 0 then .msgFxnErr else .success)
  | .cmd =>
    match e.fxn with
    | .error rval => .replies (refusal rval)
    | .ok none => .crashes false
    | .ok (some result) => if result < 0 then .replies .msgFxnErr else .frees result
  | .dpc =>
    match e.fxn with
    | .error _ => .crashes true
    | .ok none => .crashes true
    | .ok (some _) => .replies .symbolNotFound
  | .symIdx => .replies (if e.symbol then .success else .symbolNotFound)
  | _ => .nothing

/-! ## The steps of the threads -/

/-- The threads, the messages that were freed with the results of their functions, those that
nothing was done with, and whether the server has ended. -/
structure World where
  sys : Sys := {}
  frees : List (Packet × Int) := []
  lost : List Packet := []
  crashed : Bool := false

/-- `List_put` on a ready queue and the post, which may fail. -/
def putPost (s : Sys) (k : Nat) (p : Packet) (post : Bool) : Sys :=
  if post then s.put k p
  else { s with readyQueue := update s.readyQueue k (s.readyQueue k ++ [p]) }

/-- `_RcmServer_dispatch`: what it leaves, and the error it reports. -/
def dispatch (c : Pools) (s : Sys) (p : Packet) (post : Bool) : Sys × Option Err :=
  let posted := if post then none else some .fail
  match getPool c p.poolId with
  | .error e => (s, some e)
  | .ok k =>
    if p.jobId = 0 then (putPost s k p post, posted)
    else
      match s.findJob p.jobId with
      | none => (s, some .jobIdNotFound)
      | some g =>
        if (s.jobs g).empty then
          (putPost (s.setJob g { s.jobs g with empty := false }) k p post, posted)
        else (s.setJob g { s.jobs g with msgQue := (s.jobs g).msgQue ++ [p] }, none)

/-- `_RcmServer_serverThrFxn`, one round. A message that was not dispatched is returned. -/
def serverGet (c : Pools) (s : Sys) (post : Bool) : Option Sys :=
  match s.serverQue with
  | [] => none
  | m :: rest =>
    if c.InBand m then some ((s.take m rest).begin .server (s.packet m))
    else
      match dispatch c (s.take m rest) (s.packet m) post with
      | (s', none) => some s'
      | (s', some e) => some (s'.finish (s.packet m) (.refused e.status))

/-- Where a thread goes after a message. -/
def afterwards (t : Tid) (p : Packet) : Pc :=
  match t with
  | .server => .wait
  | .worker _ _ => if p.jobId = 0 then .wait else .next p

def exec (w : World) (t : Tid) (p : Packet) (e : Outside) : World :=
  match p.desc with
  | .jobAcq =>
    { w with sys := (acqJobId w.sys e.heap).1.goto t (.reply p (some (acqJobId w.sys e.heap).2)) }
  | .jobRel jobId =>
    { w with sys := (relJobId w.sys jobId).1.goto t (.reply p (some (relJobId w.sys jobId).2)) }
  | desc =>
    match outcome e desc with
    | .replies status => { w with sys := w.sys.goto t (.reply p (some status)) }
    | .frees result =>
      { w with sys := w.sys.goto t (.reply p none), frees := w.frees ++ [(p, result)] }
    | .nothing => { w with sys := w.sys.goto t (afterwards t p), lost := w.lost ++ [p] }
    | .crashes false => { w with crashed := true }
    | .crashes true =>
      { w with
        sys := w.sys.finish p (.executed (some .symbolNotFound))
        crashed := true }

/-- The loop at the end of a worker's round, which takes from the queue of the job, or, after a
post that failed, from the ready queue of the pool. -/
def handOn (c : Pools) (t : Tid) (g : Nat) : List Bool → Sys → Option Nat → Sys
  | posts, s, source =>
    let que := match source with
      | none => (s.jobs g).msgQue
      | some k => s.readyQueue k
    let left (empty : Bool) (rest : List Packet) : Sys := match source with
      | none => s.setJob g { s.jobs g with msgQue := rest, empty := empty }
      | some k =>
        { s with readyQueue := update s.readyQueue k rest }.setJob g
          { s.jobs g with empty := empty }
    match nextMessage c que with
    | (refused, none) =>
      { left true [] with ended := s.ended ++ refused }.goto t
        (if refused = [] then .wait else .get)
    | (refused, some (p, k, rest)) =>
      let s' := { left (s.jobs g).empty rest with ended := s.ended ++ refused }
      match posts with
      | false :: posts => handOn c t g posts (putPost s' k p false) (some k)
      | _ => (s'.put k p).goto t .wait

def workerNext (c : Pools) (s : Sys) (t : Tid) (p : Packet) (posts : List Bool) : Sys :=
  match s.findJob p.jobId with
  | none => s.goto t .wait
  | some g => handOn c t g posts s none

/-- The next step of a thread; `none` if it has to wait. -/
def advance (c : Pools) (w : World) (t : Tid) (e : Outside) : Option World :=
  if w.crashed then none
  else
    match w.sys.pc t, t with
    | .wait, .server => (serverGet c w.sys e.post).map fun s => { w with sys := s }
    | .exec p, t => some (exec w t p e)
    | .next p, .worker k i =>
      some { w with sys := workerNext c w.sys (.worker k i) p e.posts }
    | _, t => (Server.advance c w.sys t {}).map fun s => { w with sys := s }

inductive Act where
  /-- A client puts a message on the queue of the server. -/
  | arrive (m : Wire)
  | thread (t : Tid) (e : Outside)

def step (c : Pools) (w : World) : Act → Option World
  | .arrive m => some { w with sys := { w.sys with serverQue := w.sys.serverQue ++ [decode m] } }
  | .thread t e => advance c w t e

/-! ## What is to hold -/

def Act.steps : Act → Nat
  | .arrive _ => 0
  | .thread _ _ => 1

def Act.arrivals : Act → Nat
  | .arrive _ => 1
  | .thread _ _ => 0

/-- No thread can take a step. -/
def AtRest (c : Pools) (w : World) : Prop := ∀ t e, advance c w t e = none

/-- The account of the messages after a run. -/
structure Accounted (c : Pools) (acts : List Act) (w : World) : Prop where
  /-- A message is in a queue or with a thread or done with, and in one such place only. -/
  onePlace : ∀ p ∈ w.sys.arrivals, ∃! l, w.sys.At p l
  /-- There is at most one terminal action for a message, -/
  once : (w.sys.ended.map Prod.fst).Nodup
  /-- which is a reply, or that it is freed, -/
  freed : ∀ p, (p, .executed none) ∈ w.sys.ended → ∃ result, (p, result) ∈ w.frees
  /-- as happens only to a command whose function has succeeded. -/
  succeeded : ∀ p result, (p, result) ∈ w.frees → p.desc = .cmd ∧ 0 ≤ result
  /-- The threads come to rest when no messages arrive, -/
  bounded : (acts.map Act.steps).sum ≤ 7 * (acts.map Act.arrivals).sum
  /-- and then there is a terminal action for every message. -/
  settled : AtRest c w → w.sys.serverQue = [] ∧ ∀ p ∈ w.sys.arrivals, ∃ e, (p, e) ∈ w.sys.ended

/-- The function index of the message leads to a function, and that of a `DPC` is not refused. -/
def Callable (e : Outside) : Desc → Prop
  | .rcmMsg => e.fxn ≠ .ok none
  | .cmd => e.fxn ≠ .ok none
  | .dpc => ∃ result, e.fxn = .ok (some result)
  | _ => True

/-- The condition: a message that is taken is of a type that is served, its pool has a worker, and
posts succeed; a function index that is used leads to a function. -/
def Meets (c : Pools) (w : World) : Act → Prop
  | .arrive _ => True
  | .thread t e =>
    match w.sys.pc t, t with
    | .wait, .server => e.post = true ∧ ∀ m rest, w.sys.serverQue = m :: rest → m.desc ≠ .symAdd ∧
        (¬ c.InBand m → ∀ k, getPool c m.poolId = .ok k → 0 < c.count k)
    | .exec p, _ => Callable e p.desc
    | .next _, .worker _ _ => e.post = true
    | _, _ => True

end Omap4Hal.Rcm.Accounts

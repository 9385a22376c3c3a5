import Omap4Hal.Rcm.Accounts

/- The outcome of a message as an RcmClient reports it (rcm/RcmClient.c): `RcmClient_exec`,
   `RcmClient_execCmd` and `RcmClient_checkForError`, with what the server does with the
   message in between.

   The four bits 11:8 of the descriptor have the type of a message on its way to the server
   and the status on its way back. The client sets the type with `|=`, over what the last
   reply has left there, and the server replaces it. A message is followed from its
   allocation, where the descriptor is 0, through any number of exchanges. -/
namespace Omap4Hal.Rcm.Client

open Lib
open Omap4Hal.Rcm.Server
open Omap4Hal.Rcm.Accounts (Wire Outside messageType decode outcome)

/-! ## The descriptor -/

def sSuccess : Int := 0
def eExecFailed : Int := -3
def eInvalidFxnIdx : Int := -5
def eMsgFxnError : Int := -6
def eIpcError : Int := -7
def eServerError : Int := -13
def eInvalidState : Int := -18
def eInvalidArg : Int := -20
/-- `MessageQ_E_TIMEOUT` -/
def eTimeout : Int := -6

/-- The calls that send a message. -/
inductive Kind where
  | exec
  | execCmd
  deriving DecidableEq

/-- `RcmClient_Desc_RCM_MSG` and `RcmClient_Desc_CMD` -/
def Kind.type : Kind → UInt16
  | .exec => 0x1
  | .execCmd => 0x5

/-- The client classifies the message. -/
def classify (desc : UInt16) (kind : Kind) : UInt16 := desc ||| (kind.type <<< 8)

/-- `RcmServer_Status_*` -/
def code : Status → UInt16
  | .success => 0
  | .invalidFxn => 1
  | .symbolNotFound => 2
  | .invalidMsgType => 3
  | .msgFxnErr => 4
  | .error => 5
  | .unprocessed => 6
  | .jobNotFound => 7
  | .poolNotFound => 8

/-- `_RcmServer_setStatusCode` -/
def setStatusCode (desc : UInt16) (status : Status) : UInt16 :=
  (desc &&& ~~~(0x0F00 : UInt16)) ||| ((code status <<< 8) &&& 0x0F00)

/-- The server's status in a descriptor that has come back. -/
def serverStatus (desc : UInt16) : UInt16 := (0x0F00 &&& desc) >>> 8

/-! ## The server -/

/-- A message as the client fills it in, and the server it comes to: its pools, the jobs when it
is taken, what is decided outside, and whether it is returned unprocessed because its job is
released or the server is deleted before a worker has come to it. -/
structure Encounter where
  poolId : UInt16
  jobId : UInt16
  data : UInt16 := 0
  pools : Pools
  sys : Sys := {}
  outside : Outside := {}
  unprocessed : Bool := false

def Encounter.wire (x : Encounter) (desc : UInt16) : Wire := ⟨desc, x.poolId, x.jobId, x.data⟩

def Encounter.packet (x : Encounter) (desc : UInt16) : Packet :=
  { decode (x.wire desc) with tag := 0, stream := none }

/-- `_RcmServer_process`: the descriptor of the message if it is put on its reply queue. -/
def process (x : Encounter) (desc : UInt16) : Option UInt16 :=
  match (decode (x.wire desc)).desc with
  | .jobAcq => some (setStatusCode desc (acqJobId x.sys x.outside.heap).2)
  | .jobRel jobId => some (setStatusCode desc (relJobId x.sys jobId).2)
  | d =>
    match outcome x.outside d with
    | .replies status => some (setStatusCode desc status)
    | .frees _ => none
    | .nothing => none
    | .crashes replied => if replied then some (setStatusCode desc .symbolNotFound) else none

/-- What `_RcmServer_serverThrFxn` and the workers do with a message: the descriptor with which it
comes back. -/
def answer (x : Encounter) (desc : UInt16) : Option UInt16 :=
  if x.pools.InBand (decode (x.wire desc)) then process x desc
  else
    match (Accounts.dispatch x.pools x.sys (x.packet desc) x.outside.post).2 with
    | some e => some (setStatusCode desc e.status)
    | none =>
      if x.unprocessed then some (setStatusCode desc .unprocessed) else process x desc

/-! ## The client -/

/-- What the calls of the client depend on: the module is set up and the pointers are not NULL,
and what `MessageQ_put`, `_RcmClient_getReturnMsg` and `MessageQ_get` report. -/
structure Local where
  isSetup : Bool := true
  hasHandle : Bool := true
  hasMsg : Bool := true
  hasReturn : Bool := true
  put : Int := 0
  getReturn : Int := 0
  get : Int := 0

/-- `RcmClient_exec`: the status, and the message it hands back. It does not return if the message
does not come back. -/
def exec (l : Local) (x : Encounter) (desc : UInt16) : Option (Int × Option UInt16) :=
  if l.isSetup = false then some (eInvalidState, none)
  else if l.hasHandle = false ∨ l.hasMsg = false ∨ l.hasReturn = false then
    some (eInvalidArg, none)
  else if l.put < 0 then some (eExecFailed, none)
  else
    (answer x (classify desc .exec)).map fun reply =>
      if l.getReturn < 0 then (l.getReturn, none)
      else
        match serverStatus reply with
        | 0 => (l.getReturn, some reply)
        | 1 => (eInvalidFxnIdx, some reply)
        | 4 => (eMsgFxnError, some reply)
        | _ => (eServerError, some reply)

/-- `RcmClient_checkForError`, with the message in the error queue: the status, and the message it
hands back. -/
def checkForError (l : Local) (queued : Option UInt16) : Int × Option UInt16 :=
  if l.isSetup = false then (eInvalidState, none)
  else if l.hasHandle = false ∨ l.hasReturn = false then (eInvalidArg, none)
  else if l.get ≠ eTimeout ∧ l.get < 0 then (eIpcError, none)
  else
    match if l.get < 0 then none else queued with
    | none => (sSuccess, none)
    | some reply =>
      match serverStatus reply with
      | 7 => (sSuccess, some reply)
      | 8 => (sSuccess, some reply)
      | 1 => (eInvalidFxnIdx, some reply)
      | 4 => (eMsgFxnError, some reply)
      | _ => (eServerError, some reply)

/-! ## Exchanges -/

/-- The message is sent, and asked for again: by `RcmClient_exec` itself, or after
`RcmClient_execCmd` with `RcmClient_checkForError`. -/
structure Exchange where
  kind : Kind
  encounter : Encounter
  client : Local := {}

/-- The arguments are good, so that the message is classified. -/
def Exchange.called (x : Exchange) : Bool :=
  x.client.isSetup && x.client.hasHandle && x.client.hasMsg &&
    (x.kind == .execCmd || x.client.hasReturn)

def Exchange.sent (x : Exchange) : Bool := x.called && decide (0 ≤ x.client.put)

/-- What is in the error queue after `RcmClient_execCmd`. -/
def Exchange.queued (x : Exchange) (desc : UInt16) : Option UInt16 :=
  if x.sent then answer x.encounter (classify desc .execCmd) else none

/-- The message that the client has afterwards. -/
def returned (desc : UInt16) (x : Exchange) : Option UInt16 :=
  if x.called = false then some desc
  else if x.client.put < 0 then some (classify desc x.kind)
  else
    match x.kind with
    | .exec => (exec x.client x.encounter desc).bind Prod.snd
    | .execCmd => (checkForError x.client (x.queued desc)).2

/-- The server takes the message for what it was sent as, a failure in the descriptor makes the
status negative, and `RcmClient_checkForError` hands back a message if and only if its status is
negative. -/
def Reports (desc : UInt16) (x : Exchange) : Prop :=
  (x.sent = true → messageType (classify desc x.kind) = x.kind.type) ∧
  (x.kind = .exec → ∀ status reply,
    exec x.client x.encounter desc = some (status, some reply) →
    serverStatus reply ≠ 0 → status < 0) ∧
  (x.kind = .execCmd → ∀ status message,
    checkForError x.client (x.queued desc) = (status, message) →
    (∀ reply, message = some reply → serverStatus reply ≠ 0 → status < 0) ∧
    (message.isSome = true ↔ status < 0))

/-- A message that `_RcmServer_dispatch` refuses because it does not find the pool or the job. -/
def NotFound (x : Encounter) : Prop :=
  ¬ (x.poolId = 0x8000 ∧ x.pools.defaultPool = 0) ∧
  (getPool x.pools x.poolId = .error .poolIdNotFound ∨
    ((∃ k, getPool x.pools x.poolId = .ok k) ∧ x.jobId ≠ 0 ∧ x.sys.findJob x.jobId = none))

/-- The error queue can be asked. -/
def Asks (l : Local) : Prop :=
  l.isSetup = true ∧ l.hasHandle = true ∧ l.hasReturn = true ∧ (l.get = eTimeout ∨ 0 ≤ l.get)

/-- The condition: what the last reply has left in the descriptor adds no bit to the type; and if a
command is for a pool or a job that is not found, it is not asked for. -/
def Meets (desc : UInt16) (x : Exchange) : Prop :=
  (x.sent = true → messageType desc ||| x.kind.type = x.kind.type) ∧
  (x.kind = .execCmd → Asks x.client ∧
    ¬ (x.sent = true ∧ 0 ≤ x.client.get ∧ NotFound x.encounter))

/-! ## The type and the status -/

theorem and_or_distrib (a b d : UInt16) : a &&& (b ||| d) = (a &&& b) ||| (a &&& d) := by
  apply UInt16.toBitVec_inj.mp
  exact BitVec.and_or_distrib_left

theorem and_and_not (a b : UInt16) : a &&& (b &&& ~~~a) = 0 := by
  apply UInt16.toBitVec_inj.mp
  show a.toBitVec &&& (b.toBitVec &&& ~~~a.toBitVec) = 0#16
  rw [← BitVec.and_assoc, BitVec.and_comm a.toBitVec, BitVec.and_assoc, BitVec.and_not_self]
  exact BitVec.and_zero

theorem messageType_classify (desc : UInt16) (kind : Kind) :
    messageType (classify desc kind) = messageType desc ||| kind.type := by
  unfold messageType classify
  rw [and_or_distrib, UInt16.shiftRight_or]
  cases kind with
  | exec => rfl
  | execCmd => rfl

theorem serverStatus_setStatusCode (desc : UInt16) (status : Status) :
    serverStatus (setStatusCode desc status) = code status := by
  unfold serverStatus setStatusCode
  rw [and_or_distrib, and_and_not, UInt16.zero_or]
  cases status <;> rfl

/-! ## `RcmClient_exec` -/

variable {l : Local}

theorem exec_reports {x : Encounter} {desc : UInt16} {status : Int} {reply : UInt16}
    (h : exec l x desc = some (status, some reply)) (hfail : serverStatus reply ≠ 0) :
    status < 0 := by
  unfold exec at h
  split at h
  · cases h
  split at h
  · cases h
  split at h
  · cases h
  obtain ⟨reply', _, hreply⟩ := Option.map_eq_some_iff.mp h
  split at hreply
  · cases hreply
  · split at hreply
    next hzero =>
      cases hreply
      exact absurd hzero hfail
    · cases hreply
      decide
    · cases hreply
      decide
    · cases hreply
      decide

/-! ## `RcmClient_checkForError` -/

section

variable {l : Local} {queued : Option UInt16} {reply : UInt16}

theorem checkForError_asks (h : Asks l) : checkForError l queued =
    match if l.get < 0 then none else queued with
    | none => (sSuccess, none)
    | some reply =>
      match serverStatus reply with
      | 7 => (sSuccess, some reply)
      | 8 => (sSuccess, some reply)
      | 1 => (eInvalidFxnIdx, some reply)
      | 4 => (eMsgFxnError, some reply)
      | _ => (eServerError, some reply) := by
  obtain ⟨hsetup, hhandle, hreturn, hget⟩ := h
  have hbad : ¬ (l.get ≠ eTimeout ∧ l.get < 0) := by omega
  simp only [checkForError, hsetup, hhandle, hreturn, hbad, Bool.true_eq_false, or_self, if_false]

theorem checkForError_fails (queued : Option UInt16) (h : ¬ Asks l) :
    ∃ status, checkForError l queued = (status, none) ∧ status < 0 := by
  unfold checkForError
  split
  · exact ⟨_, rfl, by decide⟩
  next hsetup =>
  split
  · exact ⟨_, rfl, by decide⟩
  next hptr =>
  split
  · exact ⟨_, rfl, by decide⟩
  next hget =>
    exfalso
    apply h
    rw [not_or] at hptr
    refine ⟨by simpa using hsetup, by simpa using hptr.1, by simpa using hptr.2, by omega⟩

end

/-! ## What comes back of a command -/

/-- The failures that `RcmClient_checkForError` reports. -/
def Noticed (status : Status) : Prop :=
  status = .invalidFxn ∨ status = .msgFxnErr ∨ status = .error ∨ status = .unprocessed

section

variable {x : Encounter} {desc : UInt16}

theorem answer_notFound (desc : UInt16) (h : NotFound x) :
    ∃ status, (status = .jobNotFound ∨ status = .poolNotFound) ∧
      answer x desc = some (setStatusCode desc status) := by
  obtain ⟨hin, hfound⟩ := h
  have hband : ¬ x.pools.InBand (decode (x.wire desc)) := hin
  unfold answer
  rw [if_neg hband]
  unfold Accounts.dispatch
  rcases hfound with hpool | ⟨⟨k, hpool⟩, hjob, hfind⟩
  · refine ⟨.poolNotFound, .inr rfl, ?_⟩
    simp only [show getPool x.pools (x.packet desc).poolId = .error .poolIdNotFound from hpool]
    rfl
  · refine ⟨.jobNotFound, .inl rfl, ?_⟩
    simp only [show getPool x.pools (x.packet desc).poolId = .ok k from hpool,
      if_neg (show ¬ (x.packet desc).jobId = 0 from hjob),
      show x.sys.findJob (x.packet desc).jobId = none from hfind]
    rfl

theorem dispatch_notFound {c : Pools} {s : Sys} {p : Packet} {post : Bool} {err : Err}
    (h : (Accounts.dispatch c s p post).2 = some err) (herr : err ≠ .fail) :
    getPool c p.poolId = .error .poolIdNotFound ∨
      ((∃ k, getPool c p.poolId = .ok k) ∧ p.jobId ≠ 0 ∧ s.findJob p.jobId = none) := by
  have hposted : (if post = true then none else some Err.fail) ≠ some err := by
    cases post with
    | true => nofun
    | false =>
      intro heq
      exact herr (Option.some.inj heq).symm
  unfold Accounts.dispatch at h
  cases hpool : getPool c p.poolId with
  | error e =>
    rw [hpool] at h
    cases h
    cases err with
    | fail => exact absurd rfl herr
    | poolIdNotFound => exact .inl rfl
    | jobIdNotFound =>
      unfold getPool at hpool
      split at hpool
      · dsimp only at hpool
        split at hpool <;> cases hpool
      · cases hpool
  | ok k =>
    rw [hpool] at h
    dsimp only at h
    split at h
    · exact absurd h hposted
    next hjob =>
      cases hfind : s.findJob p.jobId with
      | none => exact .inr ⟨⟨k, rfl⟩, hjob, rfl⟩
      | some g =>
        rw [hfind] at h
        dsimp only at h
        split at h
        · exact absurd h hposted
        · cases h

theorem process_cmd (hdesc : messageType desc = 5) :
    process x desc = none ∨
      ∃ status, Noticed status ∧ process x desc = some (setStatusCode desc status) := by
  have hcmd : (decode (x.wire desc)).desc = .cmd := by
    simp only [decode, Encounter.wire, hdesc]
  unfold process
  simp only [hcmd, outcome]
  cases hfxn : x.outside.fxn with
  | error rval =>
    refine .inr ⟨Accounts.refusal rval, ?_, rfl⟩
    unfold Accounts.refusal
    split
    · exact .inl rfl
    · exact .inr (.inr (.inl rfl))
  | ok called =>
    cases called with
    | none => exact .inl rfl
    | some result =>
      by_cases hneg : result < 0
      · exact .inr ⟨.msgFxnErr, .inr (.inl rfl), by simp only [if_pos hneg]⟩
      · exact .inl (by simp only [if_neg hneg])

theorem answer_found (h : ¬ NotFound x) (hdesc : messageType desc = 5) :
    answer x desc = none ∨
      ∃ status, Noticed status ∧ answer x desc = some (setStatusCode desc status) := by
  unfold answer
  split
  · exact process_cmd hdesc
  next hband =>
  cases hdisp : (Accounts.dispatch x.pools x.sys (x.packet desc) x.outside.post).2 with
  | none =>
    simp only
    split
    · exact .inr ⟨.unprocessed, .inr (.inr (.inr rfl)), rfl⟩
    · exact process_cmd hdesc
  | some err =>
    cases err with
    | fail => exact .inr ⟨.error, .inr (.inr (.inl rfl)), rfl⟩
    | jobIdNotFound => exact absurd ⟨hband, dispatch_notFound hdisp nofun⟩ h
    | poolIdNotFound => exact absurd ⟨hband, dispatch_notFound hdisp nofun⟩ h

end

/-! ## Every exchange -/

theorem checkForError_noticed (desc : UInt16) {status : Status} (h : Asks l) (hget : 0 ≤ l.get)
    (hnoticed : Noticed status) :
    ∃ n, checkForError l (some (setStatusCode desc status)) =
      (n, some (setStatusCode desc status)) ∧ n < 0 := by
  rw [checkForError_asks h, if_neg (by omega)]
  simp only [serverStatus_setStatusCode]
  rcases hnoticed with rfl | rfl | rfl | rfl
  · exact ⟨eInvalidFxnIdx, rfl, by decide⟩
  · exact ⟨eMsgFxnError, rfl, by decide⟩
  · exact ⟨eServerError, rfl, by decide⟩
  · exact ⟨eServerError, rfl, by decide⟩

theorem checkForError_unnoticed (desc : UInt16) {status : Status} (h : Asks l) (hget : 0 ≤ l.get)
    (hstatus : status = .jobNotFound ∨ status = .poolNotFound) :
    checkForError l (some (setStatusCode desc status)) =
      (sSuccess, some (setStatusCode desc status)) := by
  rw [checkForError_asks h, if_neg (by omega)]
  simp only [serverStatus_setStatusCode]
  rcases hstatus with rfl | rfl <;> rfl

theorem checkForError_nothing {queued : Option UInt16} (h : Asks l)
    (hnone : l.get < 0 ∨ queued = none) : checkForError l queued = (sSuccess, none) := by
  rw [checkForError_asks h]
  have hmsg : (if l.get < 0 then none else queued) = none := by
    rcases hnone with hneg | hnone
    · exact if_pos hneg
    · rw [hnone]
      exact ite_self none
  rw [hmsg]

theorem reports_iff_meets (desc : UInt16) (x : Exchange) : Reports desc x ↔ Meets desc x := by
  unfold Reports Meets
  rw [messageType_classify]
  refine and_congr_right ?_
  intro htype
  cases hkind : x.kind with
  | exec =>
    refine ⟨fun _ => nofun, fun _ => ⟨?_, nofun⟩⟩
    intro _ status reply hexec hfail
    exact exec_reports hexec hfail
  | execCmd =>
    rw [hkind] at htype
    refine ⟨?_, ?_⟩
    · intro h _
      have hcheck := h.2 rfl
      have hasks : Asks x.client := by
        by_contra hnot
        obtain ⟨status, heq, hneg⟩ := checkForError_fails (x.queued desc) hnot
        obtain ⟨_, hiff⟩ := hcheck _ _ heq
        exact absurd (hiff.mpr hneg) nofun
      refine ⟨hasks, ?_⟩
      rintro ⟨hsent, hget, hnot⟩
      obtain ⟨status, hstatus, hanswer⟩ := answer_notFound (classify desc .execCmd) hnot
      have hqueued : x.queued desc = some (setStatusCode (classify desc .execCmd) status) := by
        rw [Exchange.queued, if_pos hsent, hanswer]
      have heq := checkForError_unnoticed (classify desc .execCmd) hasks hget hstatus
      rw [← hqueued] at heq
      obtain ⟨_, hiff⟩ := hcheck _ _ heq
      rw [hqueued] at hiff
      exact absurd (hiff.mp rfl) (by decide)
    · intro h
      obtain ⟨hasks, hnot⟩ := h rfl
      refine ⟨nofun, ?_⟩
      intro _ status message heq
      have hnothing : x.client.get < 0 ∨ x.queued desc = none →
          (∀ reply, message = some reply → serverStatus reply ≠ 0 → status < 0) ∧
          (message.isSome = true ↔ status < 0) := by
        intro hnone
        rw [checkForError_nothing hasks hnone] at heq
        cases heq
        exact ⟨nofun, iff_of_false nofun (by decide)⟩
      by_cases hget : x.client.get < 0
      · exact hnothing (.inl hget)
      cases hsent : x.sent with
      | false => exact hnothing (.inr (if_neg (Bool.eq_false_iff.mp hsent)))
      | true =>
        have hfound : ¬ NotFound x.encounter := fun hnf => hnot ⟨hsent, by omega, hnf⟩
        have hcmd : messageType (classify desc .execCmd) = 5 :=
          (messageType_classify desc .execCmd).trans (htype hsent)
        have hqueued : x.queued desc = answer x.encounter (classify desc .execCmd) := if_pos hsent
        rcases answer_found hfound hcmd with hnone | ⟨st, hnoticed, hanswer⟩
        · exact hnothing (.inr (hqueued.trans hnone))
        · obtain ⟨n, hcheck, hneg⟩ := checkForError_noticed (classify desc .execCmd) hasks
            (by omega) hnoticed
          rw [hqueued, hanswer, hcheck] at heq
          cases heq
          exact ⟨fun _ _ _ => hneg, iff_of_true rfl hneg⟩

/-- For every message, through any number of exchanges. -/
theorem outcomes_reported_iff (desc : UInt16) (xs : List Exchange) :
    Guarded returned Reports desc xs ↔ Guarded returned Meets desc xs :=
  guarded_congr (J := fun _ => True) (fun desc x _ => reports_iff_meets desc x)
    (fun _ _ _ _ _ _ => trivial) trivial

/-- A message whose function fails, sent again: the server takes it for a command. -/
def sentAgain : List Exchange :=
  let x : Encounter := { poolId := 0x8000, jobId := 0, pools := ⟨0, []⟩ }
  [{ kind := .exec, encounter := { x with outside := { fxn := .ok (some (-1)) } } },
    { kind := .exec, encounter := x }]

/-- A command for a job that the server does not know: the message is handed back with success. -/
def unknownJob : List Exchange :=
  [{ kind := .execCmd, encounter := { poolId := 0x8001, jobId := 1, pools := ⟨0, [1]⟩ } }]

theorem outcomes_not_reported :
    ¬ Guarded returned Reports 0 sentAgain ∧ ¬ Guarded returned Reports 0 unknownJob := by
  refine ⟨?_, ?_⟩
  · intro h
    have htype := ((h.2 0x0400 rfl).1.1 rfl)
    revert htype
    decide
  · intro h
    have hiff := (h.1.2.2 rfl 0 (some 0x0700) rfl).2
    exact absurd (hiff.mp rfl) (by decide)

end Omap4Hal.Rcm.Client

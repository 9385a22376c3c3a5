import Omap4Hal.Lib.CountedLoop
import Omap4Hal.Security.SharedMemory

/- A message with an operation (`scxExchangeMessage` of `tee_client_api_linux_driver.c`). The
   operation has four parameters, whose types are packed four bits each. A reference to a whole
   shared memory gets its direction from the memory, in the message only. The parameters with the
   output flag are then set from the answer.

   They are set as well when the ioctl has failed. The answer is a local variable of the caller
   that nothing has written: the outputs of the operation become what was on the stack
   (`failedInvoke_overwrites`). `exchange_asAnswered_iff` is the condition under which parameters
   change only as answered. -/
namespace Omap4Hal.Security.Tee.Message
open Lib
open Function (update update_eq_self update_of_ne update_self)

def scxOpenClientSession : UInt8 := 0xF0
def scxInvokeClientCommand : UInt8 := 0xF5

def teecMemrefWhole : UInt32 := 0xC

/-! ## Parameters -/

/-- `TEEC_Parameter`, a union of three words at most. -/
structure Parameter where
  word0 : UInt32
  word1 : UInt32
  word2 : UInt32
  deriving DecidableEq

def Parameter.parent (p : Parameter) : UInt32 := p.word0
def Parameter.buffer (p : Parameter) : UInt32 := p.word0
/-- The size is at the same place in both kinds of reference. -/
def Parameter.size (p : Parameter) : UInt32 := p.word1
def Parameter.offset (p : Parameter) : UInt32 := p.word2
def Parameter.a (p : Parameter) : UInt32 := p.word0
def Parameter.b (p : Parameter) : UInt32 := p.word1

/-- `TEEC_Operation`, as far as it is read here. -/
structure Operation where
  paramTypes : UInt32
  params : Fin 4 → Parameter

/-- `SCHANNEL6_COMMAND_PARAM`, a union of three words: a value is the first two. -/
structure CommandParam where
  word0 : UInt32
  nSize : UInt32
  nOffset : UInt32

/-- `SCHANNEL6_COMMAND`. The types are at the same place in an open and an invoke message;
`sParams` are those of the message that it is. -/
structure Command where
  nMessageType : UInt8
  nMessageInfo : UInt16
  nOperationID : UInt32
  sParams : Fin 4 → CommandParam

/-- `SCHANNEL6_ANSWER_PARAM`: a value, or a word that is ignored and a size. -/
structure AnswerParam where
  a : UInt32
  b : UInt32

def AnswerParam.nSize (p : AnswerParam) : UInt32 := p.b

/-- `SCHANNEL6_ANSWER`: its type, and the words after the error code. -/
structure Answer where
  nMessageType : UInt8
  body : Nat → UInt32

/-- An answer to an open message has the session before the parameters. -/
def Answer.sAnswers (answer : Answer) (i : Fin 4) : AnswerParam :=
  if answer.nMessageType = scxOpenClientSession then
    ⟨answer.body (1 + 2 * i), answer.body (2 + 2 * i)⟩
  else ⟨answer.body (2 * i), answer.body (1 + 2 * i)⟩

/-- SCX_PARAM_TYPE_GET, SCX_GET_PARAM_TYPE -/
def scxGetParamType (types : UInt32) (i : Fin 4) : UInt32 := types >>> (4 * UInt32.ofNat i) &&& 0xF

/-- SCX_PARAM_TYPE_INPUT_FLAG -/
def hasInput (type : UInt32) : Bool := type &&& 1 ≠ 0
/-- SCX_PARAM_TYPE_OUTPUT_FLAG -/
def hasOutput (type : UInt32) : Bool := type &&& 2 ≠ 0
/-- SCX_PARAM_TYPE_MEMREF_FLAG -/
def isMemref (type : UInt32) : Bool := type &&& 4 ≠ 0
/-- SCX_PARAM_TYPE_REGISTERED_MEMREF_FLAG -/
def isRegistered (type : UInt32) : Bool := type &&& 8 ≠ 0

/-! ## Functions -/

/-- What the ioctl does: the driver writes an answer, or it does not. -/
inductive Exchange where
  | answered (answer : Answer)
  | failed (errno : Errno)

def Exchange.ioctl : Exchange → Ioctl
  | .answered _ => {}
  | .failed errno => { result := 0xFFFFFFFF, errno := errno }

/-- The memory at `pAnswer` after the ioctl. -/
def Exchange.memory (pAnswer : Answer) : Exchange → Answer
  | .answered answer => answer
  | .failed _ => pAnswer

/-- One pass of the loop that fills the command. `objects` are the shared memories by their
address. -/
def sendParam (objects : UInt32 → SharedMemory) (operation : Operation) (pCommand : Command)
    (i : Fin 4) : Command :=
  let nTEECParamType := scxGetParamType operation.paramTypes i
  let pTEECParam := operation.params i
  let put (param : CommandParam) : Command :=
    { pCommand with sParams := update pCommand.sParams i param }
  if isMemref nTEECParamType then
    if isRegistered nTEECParamType then
      let parent := objects pTEECParam.parent
      if nTEECParamType = teecMemrefWhole then
        { put ⟨parent.hBlock, parent.size, 0⟩ with
          nMessageInfo := pCommand.nMessageInfo |||
            ((parent.flags &&& (1 ||| 2)) <<< (4 * UInt32.ofNat i)).toUInt16 }
      else put ⟨parent.hBlock, pTEECParam.size, pTEECParam.offset⟩
    else put ⟨pTEECParam.buffer, pTEECParam.size, pTEECParam.buffer⟩
  else if hasInput nTEECParamType then
    put { pCommand.sParams i with word0 := pTEECParam.a, nSize := pTEECParam.b }
  else pCommand

def sendParams (objects : UInt32 → SharedMemory) (operation : Operation) (pCommand : Command) :
    Command :=
  (List.finRange 4).foldl (sendParam objects operation)
    { pCommand with nMessageInfo := operation.paramTypes.toUInt16 }

/-- One pass of the loop that reads the answer. -/
def takeAnswer (pCommand : Command) (pSCXAnswers : Fin 4 → AnswerParam)
    (params : Fin 4 → Parameter) (i : Fin 4) : Fin 4 → Parameter :=
  let nSCXParamType := scxGetParamType pCommand.nMessageInfo.toUInt32 i
  if hasOutput nSCXParamType then
    if isMemref nSCXParamType then
      update params i { params i with word1 := (pSCXAnswers i).nSize }
    else
      update params i { params i with
        word0 := (pSCXAnswers i).a, word1 := (pSCXAnswers i).b }
  else params

/-- The result, the command and the operation after the call. `address` is that of the answer. -/
def scxExchangeMessage (objects : UInt32 → SharedMemory) (pCommand : Command) (pAnswer : Answer)
    (address : UInt32) (pOperation : Option Operation) (exchange : Exchange) :
    UInt32 × Command × Option Operation :=
  let pCommand := match pOperation with
    | some operation => sendParams objects operation pCommand
    | none => pCommand
  let pCommand := { pCommand with nOperationID := address }
  let nResult := Tee.scxExchangeMessage exchange.ioctl
  let pAnswer := exchange.memory pAnswer
  (nResult, pCommand, pOperation.map fun operation => { operation with
    params := (List.finRange 4).foldl (takeAnswer pCommand pAnswer.sAnswers) operation.params })

/-! ## What the call is to do -/

/-- The type of a parameter, with the direction of the shared memory for a whole one. -/
def Operation.effectiveType (operation : Operation) (objects : UInt32 → SharedMemory)
    (i : Fin 4) : UInt32 :=
  let type := scxGetParamType operation.paramTypes i
  if type = teecMemrefWhole then type ||| (objects (operation.params i).parent).flags &&& 3
  else type

/-- The parameter `p'` is `p` with the size, or with the value, of the answer. -/
def Parameter.SetFrom (p p' : Parameter) (type : UInt32) (answer : AnswerParam) : Prop :=
  if isMemref type then
    p'.size = answer.nSize ∧ p'.parent = p.parent ∧ p'.buffer = p.buffer ∧ p'.offset = p.offset
  else p'.a = answer.a ∧ p'.b = answer.b

/-- Parameters change only as answered. -/
structure AsAnswered (objects : UInt32 → SharedMemory) (operation operation' : Operation)
    (exchange : Exchange) : Prop where
  input : ∀ i, hasOutput (operation.effectiveType objects i) = false →
    operation'.params i = operation.params i
  output : ∀ answer, exchange = .answered answer → ∀ i,
    hasOutput (operation.effectiveType objects i) = true →
    (operation.params i).SetFrom (operation'.params i) (operation.effectiveType objects i)
      (answer.sAnswers i)
  failed : ∀ errno, exchange = .failed errno → ∀ i, operation'.params i = operation.params i

/-- The answer is there, or what the memory of the answer holds is what the output parameters
hold already. -/
def Harmless (objects : UInt32 → SharedMemory) (operation : Operation) (pAnswer : Answer)
    (exchange : Exchange) : Prop :=
  ∀ errno, exchange = .failed errno → ∀ i,
    hasOutput (operation.effectiveType objects i) = true →
    if isMemref (operation.effectiveType objects i) then
      (pAnswer.sAnswers i).nSize = (operation.params i).size
    else
      (pAnswer.sAnswers i).a = (operation.params i).a ∧
        (pAnswer.sAnswers i).b = (operation.params i).b

/-! ## The types in a message -/

theorem toNat_shift (i : Fin 4) : (4 * UInt32.ofNat i).toNat % 32 = 4 * i := by
  match i with
  | 0 | 1 | 2 | 3 => rfl

theorem testBit_getParamType (types : UInt32) (i : Fin 4) (k : Nat) :
    (scxGetParamType types i).toNat.testBit k =
      (decide (k < 4) && types.toNat.testBit (4 * i + k)) := by
  rw [scxGetParamType, UInt32.toNat_and, UInt32.toNat_shiftRight, toNat_shift, Nat.testBit_and,
    Nat.testBit_shiftRight, show (0xF : UInt32).toNat = 2 ^ 4 - 1 from rfl,
    Nat.testBit_two_pow_sub_one, Bool.and_comm]

theorem getParamType_congr {x y : UInt32} {i : Fin 4}
    (h : ∀ k < 4, x.toNat.testBit (4 * i + k) = y.toNat.testBit (4 * i + k)) :
    scxGetParamType x i = scxGetParamType y i := by
  apply UInt32.toNat_inj.mp
  apply Nat.eq_of_testBit_eq
  intro k
  rw [testBit_getParamType, testBit_getParamType]
  by_cases hk : k < 4
  · rw [h k hk]
  · simp [hk]

theorem getParamType_toUInt16 (types : UInt32) (i : Fin 4) :
    scxGetParamType types.toUInt16.toUInt32 i = scxGetParamType types i := by
  apply getParamType_congr
  intro k hk
  rw [UInt16.toNat_toUInt32, UInt32.toNat_toUInt16, Nat.testBit_mod_two_pow]
  have hlt : 4 * (i : Nat) + k < 16 := by omega
  simp [hlt]

theorem testBit_direction (flags : UInt32) (i : Fin 4) (k : Nat) :
    (((flags &&& (1 ||| 2)) <<< (4 * UInt32.ofNat i)).toUInt16).toNat.testBit k =
      (decide (4 * i ≤ k ∧ k < 4 * i + 2) && flags.toNat.testBit (k - 4 * i)) := by
  have hlt := i.isLt
  rw [UInt32.toNat_toUInt16, UInt32.toNat_shiftLeft, UInt32.toNat_and, toNat_shift,
    Nat.testBit_mod_two_pow, Nat.testBit_mod_two_pow, Nat.testBit_shiftLeft, Nat.testBit_and,
    show ((1 : UInt32) ||| 2).toNat = 2 ^ 2 - 1 from rfl, Nat.testBit_two_pow_sub_one]
  by_cases hlo : 4 * (i : Nat) ≤ k <;> by_cases hhi : k < 4 * i + 2
  · have : k < 16 := by omega
    have : k < 32 := by omega
    have : k - 4 * i < 2 := by omega
    simp [*]
  · have : ¬ k - 4 * i < 2 := by omega
    simp [*]
  · simp [*]
  · simp [*]

theorem getParamType_or_own (info : UInt16) (flags : UInt32) (i : Fin 4) :
    scxGetParamType
      (info ||| ((flags &&& (1 ||| 2)) <<< (4 * UInt32.ofNat i)).toUInt16).toUInt32 i =
      scxGetParamType info.toUInt32 i ||| flags &&& 3 := by
  apply UInt32.toNat_inj.mp
  apply Nat.eq_of_testBit_eq
  intro k
  rw [testBit_getParamType, UInt32.toNat_or, UInt32.toNat_and, Nat.testBit_or, Nat.testBit_and,
    testBit_getParamType, UInt16.toNat_toUInt32, UInt16.toNat_toUInt32, UInt16.toNat_or,
    Nat.testBit_or, testBit_direction, show (3 : UInt32).toNat = 2 ^ 2 - 1 from rfl,
    Nat.testBit_two_pow_sub_one, Nat.add_sub_cancel_left]
  by_cases hk : k < 2
  · have : k < 4 := by omega
    simp [*]
  · simp [hk]

theorem getParamType_or_other (info : UInt16) (flags : UInt32) {i j : Fin 4} (hne : j ≠ i) :
    scxGetParamType
      (info ||| ((flags &&& (1 ||| 2)) <<< (4 * UInt32.ofNat i)).toUInt16).toUInt32 j =
      scxGetParamType info.toUInt32 j := by
  apply getParamType_congr
  intro k hk
  rw [UInt16.toNat_toUInt32, UInt16.toNat_toUInt32, UInt16.toNat_or, Nat.testBit_or,
    testBit_direction]
  have hout : ¬ (4 * (i : Nat) ≤ 4 * j + k ∧ 4 * (j : Nat) + k < 4 * i + 2) := by
    have := Fin.val_ne_of_ne hne
    omega
  rw [decide_eq_false hout]
  simp

/-! ## The loops -/

section Loops
variable (objects : UInt32 → SharedMemory) (operation : Operation)

theorem sendParam_info (pCommand : Command) (i : Fin 4) :
    (sendParam objects operation pCommand i).nMessageInfo =
      if scxGetParamType operation.paramTypes i = teecMemrefWhole then
        pCommand.nMessageInfo ||| (((objects (operation.params i).parent).flags &&& (1 ||| 2)) <<<
          (4 * UInt32.ofNat i)).toUInt16
      else pCommand.nMessageInfo := by
  by_cases hwhole : scxGetParamType operation.paramTypes i = teecMemrefWhole
  · have hmemref : isMemref teecMemrefWhole = true := rfl
    have hregistered : isRegistered teecMemrefWhole = true := rfl
    simp only [sendParam, hwhole, hmemref, hregistered, if_true]
  · simp only [sendParam, if_neg hwhole]
    split
    · split <;> rfl
    · split <;> rfl

theorem sendParam_cellWise :
    CellWise (sendParam objects operation)
      (fun pCommand i => scxGetParamType pCommand.nMessageInfo.toUInt32 i)
      fun i type => if scxGetParamType operation.paramTypes i = teecMemrefWhole then
        type ||| (objects (operation.params i).parent).flags &&& 3 else type where
  own pCommand i := by
    simp only [sendParam_info]
    split
    · exact getParamType_or_own _ _ _
    · rfl
  other pCommand i j hne := by
    simp only [sendParam_info]
    split
    · exact getParamType_or_other _ _ hne
    · rfl

theorem sendParams_type (pCommand : Command) (i : Fin 4) :
    scxGetParamType (sendParams objects operation pCommand).nMessageInfo.toUInt32 i =
      operation.effectiveType objects i := by
  have h := (sendParam_cellWise objects operation).sweep_mem (List.nodup_finRange 4)
    (List.mem_finRange i) { pCommand with nMessageInfo := operation.paramTypes.toUInt16 }
  simp only [getParamType_toUInt16] at h
  exact h

end Loops

/-- A parameter after the answer was read. -/
def Parameter.after (type : UInt32) (answer : AnswerParam) (p : Parameter) : Parameter :=
  if hasOutput type then
    if isMemref type then { p with word1 := answer.nSize }
    else { p with word0 := answer.a, word1 := answer.b }
  else p

theorem takeAnswer_eq (pCommand : Command) (pSCXAnswers : Fin 4 → AnswerParam)
    (params : Fin 4 → Parameter) (i : Fin 4) :
    takeAnswer pCommand pSCXAnswers params i = update params i
      ((params i).after (scxGetParamType pCommand.nMessageInfo.toUInt32 i) (pSCXAnswers i)) := by
  simp only [takeAnswer, Parameter.after]
  split
  · split <;> rfl
  · exact (update_eq_self i params).symm

theorem takeAnswer_cellWise (pCommand : Command) (pSCXAnswers : Fin 4 → AnswerParam) :
    CellWise (takeAnswer pCommand pSCXAnswers) (fun params i => params i)
      fun i p => p.after (scxGetParamType pCommand.nMessageInfo.toUInt32 i) (pSCXAnswers i) where
  own params i := by rw [takeAnswer_eq, update_self]
  other params i j hne := by rw [takeAnswer_eq, update_of_ne hne]

/-! ## The call -/

section Call
variable {objects : UInt32 → SharedMemory} {pCommand : Command} {pAnswer : Answer}
  {address : UInt32} {operation operation' : Operation} {exchange : Exchange}

/-- Whatever the ioctl has done, the parameters are set from the memory of the answer. -/
theorem exchange_params
    (h : (scxExchangeMessage objects pCommand pAnswer address (some operation) exchange).2.2 =
      some operation') (i : Fin 4) :
    operation'.params i = (operation.params i).after (operation.effectiveType objects i)
      ((exchange.memory pAnswer).sAnswers i) := by
  rw [← Option.some.inj h]
  show (List.finRange 4).foldl (takeAnswer _ _) operation.params i = _
  rw [(takeAnswer_cellWise _ _).sweep_mem (List.nodup_finRange 4) (List.mem_finRange i)]
  rw [← sendParams_type objects operation pCommand i]

variable {type : UInt32}

theorem after_input (h : hasOutput type = false) (answer : AnswerParam) (p : Parameter) :
    p.after type answer = p := by
  rw [Parameter.after, h]
  rfl

theorem after_setFrom (h : hasOutput type = true) (answer : AnswerParam) (p : Parameter) :
    p.SetFrom (p.after type answer) type answer := by
  simp only [Parameter.after, Parameter.SetFrom, h, if_true]
  split
  · exact ⟨rfl, rfl, rfl, rfl⟩
  · exact ⟨rfl, rfl⟩

theorem after_eq_self_iff (h : hasOutput type = true) (answer : AnswerParam) (p : Parameter) :
    p.after type answer = p ↔
      if isMemref type then answer.nSize = p.size else answer.a = p.a ∧ answer.b = p.b := by
  obtain ⟨word0, word1, word2⟩ := p
  simp only [Parameter.after, h, if_true, Parameter.size, Parameter.a, Parameter.b]
  split <;> simp

/-- For every operation and every outcome, the parameters change only as answered exactly if the
ioctl has succeeded, or the memory of the answer holds for every output parameter what the
parameter holds already. -/
theorem exchange_asAnswered_iff
    (h : (scxExchangeMessage objects pCommand pAnswer address (some operation) exchange).2.2 =
      some operation') :
    AsAnswered objects operation operation' exchange ↔
      Harmless objects operation pAnswer exchange := by
  constructor
  · intro has errno hfailed i houtput
    rw [← after_eq_self_iff houtput]
    have hsame := has.failed errno hfailed i
    rw [exchange_params h, hfailed] at hsame
    exact hsame
  · intro hharmless
    refine ⟨?_, ?_, ?_⟩
    · intro i hinput
      rw [exchange_params h, after_input hinput]
    · rintro answer rfl i houtput
      rw [exchange_params h]
      exact after_setFrom houtput _ _
    · rintro errno rfl i
      rw [exchange_params h]
      cases hdirection : hasOutput (operation.effectiveType objects i) with
      | false => exact after_input hdirection _ _
      | true => exact (after_eq_self_iff hdirection _ _).mpr (hharmless errno rfl i hdirection)

end Call

/-- One shared memory of a page, for input and output. -/
def page : SharedMemory := ⟨0x8000, 4096, 3, some 1, 9, false⟩

/-- An output value in place 0 and a reference to the whole memory in place 1. -/
def query : Operation where
  paramTypes := 0xC2
  params := fun _ => ⟨0x100, 0, 0⟩

def invoke : Command := ⟨scxInvokeClientCommand, 0, 0, fun _ => ⟨0, 0, 0⟩⟩

/-- What the stack of the caller holds. -/
def leftover : Answer := ⟨0, fun _ => 5⟩

/-- The answer gives both parameters. -/
theorem exchange_asAnswered_iff_query :
    (scxExchangeMessage (fun _ => page) invoke leftover 0x200 (some query)
      (.answered ⟨scxInvokeClientCommand, fun k => UInt32.ofNat k⟩)).2.2 = some { query with
        params := update (update query.params 0 ⟨0, 1, 0⟩) 1 ⟨0x100, 3, 0⟩ } ∧
    AsAnswered (fun _ => page) query { query with
      params := update (update query.params 0 ⟨0, 1, 0⟩) 1 ⟨0x100, 3, 0⟩ }
      (.answered ⟨scxInvokeClientCommand, fun k => UInt32.ofNat k⟩) := by
  have hcall : (scxExchangeMessage (fun _ => page) invoke leftover 0x200 (some query)
      (.answered ⟨scxInvokeClientCommand, fun k => UInt32.ofNat k⟩)).2.2 = some { query with
        params := update (update query.params 0 ⟨0, 1, 0⟩) 1 ⟨0x100, 3, 0⟩ } :=
    rfl
  exact ⟨hcall, (exchange_asAnswered_iff hcall).mpr nofun⟩

/-- The ioctl fails, the caller is told so, and both outputs are what was on the stack. -/
theorem failedInvoke_overwrites : ∃ operation' command',
    scxExchangeMessage (fun _ => page) invoke leftover 0x200 (some query) (.failed .other) =
      (teecErrorCommunication, command', some operation') ∧
    ¬ AsAnswered (fun _ => page) query operation' (.failed .other) ∧
    operation'.params 0 = ⟨5, 5, 0⟩ ∧ operation'.params 1 = ⟨0x100, 5, 0⟩ := by
  refine ⟨_, _, rfl, ?_, rfl, rfl⟩
  intro has
  exact absurd (has.failed .other rfl 0) (by decide)

end Omap4Hal.Security.Tee.Message

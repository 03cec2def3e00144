import Mathlib.Data.List.Basic
import Mathlib.Logic.Function.Basic

/-!
# 6P transactions

`sixp-trans.c` and `sixp.c`. A transaction is shared by its timer, the frame that is under way at
the MAC layer, which has a pointer to it, and the next packet of its peer.

A pointer to a transaction is the place of its block in `trans_memb`; a free block, which the
source fills with zeros, is `none`. A frame that the MAC layer has accepted stays under way until
its `mac_callback`. What a scheduling function does in one of its callbacks is a call of its own,
afterwards. Whether a packet can be created, what `NETSTACK_MAC.send` does with it and whether the
neighbour table has room is up to the environment; a failed assertion has no effect.

Not in the source are the numbers of the allocations and of the calls of `sixp_output`, and the
records of what was answered, invoked and decided, which only the statements about runs read.
-/

namespace Den2ne.Sixp

/-- `sixp_pkt_type_t`. -/
inductive PktType
  | request
  | response
  | confirmation
  | reserved
deriving DecidableEq, Repr

/-- `SIXP_PKT_CMD_ADD`. -/
def cmdAdd : UInt8 := 1

/-- `SIXP_PKT_CMD_DELETE`. -/
def cmdDelete : UInt8 := 2

/-- `SIXP_PKT_CMD_CLEAR`. -/
def cmdClear : UInt8 := 7

/-- `SIXP_PKT_RC_ERR_VERSION`. -/
def rcErrVersion : UInt8 := 4

/-- `SIXP_PKT_RC_ERR_SFID`. -/
def rcErrSfid : UInt8 := 5

/-- `SIXP_PKT_RC_ERR_SEQNUM`. -/
def rcErrSeqnum : UInt8 := 6

/-- `SIXP_INITIAL_SEQUENCE_NUMBER`. -/
def initialSequenceNumber : UInt8 := 0

/-- `sixp_pkt_t`, with the length of its body. -/
structure Pkt where
  type : PktType
  code : UInt8
  sfid : UInt8
  seqno : UInt8
  bodyLen : ℕ
deriving Repr

/-- `sixp_trans_state_t`; a block that is free has no state. -/
inductive TransState
  | init
  | requestSending
  | requestSent
  | requestReceived
  | responseSending
  | responseSent
  | responseReceived
  | confirmationSending
  | confirmationSent
  | confirmationReceived
  | terminating
  | waitFree
deriving DecidableEq, Repr

/-- `sixp_trans_mode_t` of a transaction. -/
inductive TransMode
  | twoStep
  | threeStep
deriving DecidableEq, Repr

/-- The function that the timer of a transaction calls. -/
inductive Timer
  | handleTransTimeout
  | processTrans
deriving DecidableEq, Repr

/-- `sixp_output_status_t`. -/
inductive OutputStatus
  | success
  | failure
  | aborted
deriving DecidableEq, Repr

variable {α : Type*} [DecidableEq α]

/-- `struct sixp_trans`. The callback is the number of the call that it was passed to; `id` is the
number of the allocation. -/
structure Trans (α : Type*) where
  peerAddr : α
  seqno : UInt8
  cmd : UInt8
  state : TransState
  mode : TransMode
  callback : Option ℕ
  timer : Option Timer
  id : ℕ

/-- A frame under way: the block that its `mac_callback` gets, the transaction that was in it, and
the call that the frame is of, if it was passed a callback. -/
structure Frame where
  block : ℕ
  id : ℕ
  call : Option ℕ

/-- What is fixed for a node: the identifiers of its scheduling functions, and
`SIXTOP_MAX_TRANSACTIONS`. -/
structure Config where
  schedulingFunctions : List UInt8
  maxTransactions : ℕ

/-- The transactions, the sequence numbers of the neighbours and the frames under way. Then the
counters, and for each `mac_callback` the transaction of its frame and the one it found in the
block, for each callback that was invoked its call and the status, and the outcome of each call. -/
structure State (α : Type*) where
  trans : ℕ → Option (Trans α)
  transList : List ℕ
  nextSeqno : α → Option UInt8
  frames : List Frame
  allocs : ℕ
  calls : ℕ
  answered : List (ℕ × Option ℕ)
  invoked : List (ℕ × OutputStatus)
  outcomes : List (ℕ × OutputStatus)

/-! ## sixp-nbr.c -/

/-- Change the sequence number of a neighbour, if it has an entry. -/
def changeNextSeqno (addr : α) (f : UInt8 → UInt8) (s : State α) : State α :=
  { s with nextSeqno := Function.update s.nextSeqno addr ((s.nextSeqno addr).map f) }

/-- `sixp_nbr_alloc`; `free` says whether the table has room. -/
def sixpNbrAlloc (free : Bool) (addr : α) (s : State α) : Option (State α) :=
  if free then
    some { s with nextSeqno := Function.update s.nextSeqno addr (some initialSequenceNumber) }
  else none

/-- `sixp_nbr_increment_next_seqno`. -/
def incrementNextSeqno (nextSeqno : UInt8) : UInt8 :=
  if nextSeqno + 1 = 0 then 1 else nextSeqno + 1

/-! ## sixp-trans.c -/

/-- Write a block. -/
def State.setTrans (b : ℕ) (t : Option (Trans α)) (s : State α) : State α :=
  { s with trans := Function.update s.trans b t }

/-- The transitions that `sixp_trans_transit_state` allows. -/
def Trans.CanTransit (t : Trans α) (newState : TransState) : Prop :=
  match newState with
  | .terminating => True
  | .requestSending => t.state = .init
  | .requestSent => t.state = .requestSending
  | .requestReceived => t.state = .init
  | .responseSending => t.state = .requestReceived
  | .responseSent => t.state = .responseSending
  | .responseReceived => t.state = .requestSending ∨ t.state = .requestSent
  | .confirmationReceived =>
      (t.state = .responseSent ∨ t.state = .responseSending) ∧ t.mode = .threeStep
  | .confirmationSending => t.state = .responseReceived ∧ t.mode = .threeStep
  | .confirmationSent => t.state = .confirmationSending ∧ t.mode = .threeStep
  | .init | .waitFree => False

instance (t : Trans α) (newState : TransState) : Decidable (t.CanTransit newState) := by
  unfold Trans.CanTransit
  cases newState <;> infer_instance

/-- `sixp_trans_transit_state`, where `none` is the return value -1. Nothing calls it with a free
block. -/
def sixpTransTransitState (b : ℕ) (newState : TransState) (s : State α) : Option (State α) :=
  match s.trans b with
  | none => none
  | some t =>
      if t.CanTransit newState then
        let s :=
          if newState = .responseSent ∧ t.cmd ≠ cmdClear then
            changeNextSeqno t.peerAddr (fun _ => incrementNextSeqno t.seqno) s
          else s
        -- `schedule_trans_process`
        some (s.setTrans b (some { t with state := newState, timer := some .processTrans }))
      else none

/-- `sixp_trans_transit_state` whose return value is not looked at. -/
def transit (b : ℕ) (newState : TransState) (s : State α) : State α :=
  (sixpTransTransitState b newState s).getD s

/-- The states in which `sixp_trans_free` leaves the memory to `mac_callback`. -/
def TransState.IsSending : TransState → Prop
  | .requestSending | .responseSending | .confirmationSending => True
  | _ => False

instance (state : TransState) : Decidable state.IsSending := by
  unfold TransState.IsSending
  cases state <;> infer_instance

/-- `sixp_trans_free`. -/
def sixpTransFree (b : ℕ) (s : State α) : State α :=
  match s.trans b with
  | none => s
  | some t =>
      if t.state = .waitFree then s.setTrans b none
      else
        let s := { s with transList := s.transList.erase b }
        if t.state.IsSending then
          s.setTrans b (some { t with state := .waitFree, timer := none })
        else s.setTrans b none

/-- `handle_trans_timeout`. -/
def handleTransTimeout (b : ℕ) (s : State α) : State α := transit b .terminating s

/-- The states from which `process_trans` ends a transaction. -/
def Trans.Finished (t : Trans α) : Prop :=
  match t.state with
  | .responseSent | .responseReceived => t.mode = .twoStep
  | .confirmationSent | .confirmationReceived => True
  | _ => False

instance (t : Trans α) : Decidable t.Finished := by
  unfold Trans.Finished
  cases t.state <;> infer_instance

/-- `process_trans`. -/
def processTrans (b : ℕ) (s : State α) : State α :=
  match s.trans b with
  | none => s
  | some t =>
      let s := s.setTrans b (some { t with timer := none })
      if t.state = .terminating then sixpTransFree b s
      else if t.Finished then transit b .terminating s
      else s.setTrans b (some { t with timer := some .handleTransTimeout })

/-- `sixp_pkt_get_cell_list` of a request to add or delete cells: the length of its list. -/
def sixpPktGetCellList (bodyLen : ℕ) : Option ℕ :=
  if bodyLen < 4 then none
  else if (bodyLen - 4) % 4 ≠ 0 then none
  else some (bodyLen - 4)

/-- `determine_trans_mode`. -/
def determineTransMode (req : Pkt) : TransMode :=
  if req.type = .request ∧ (req.code = cmdAdd ∨ req.code = cmdDelete) ∧
      sixpPktGetCellList req.bodyLen = some 0 then
    .threeStep
  else .twoStep

/-- `sixp_trans_find`. -/
def sixpTransFind (peerAddr : α) (s : State α) : Option ℕ :=
  s.transList.find? fun b => (s.trans b).any fun t => t.peerAddr = peerAddr

/-- `memb_alloc` of a transaction. -/
def membAlloc (cfg : Config) (s : State α) : Option ℕ :=
  (List.range cfg.maxTransactions).find? fun b => (s.trans b).isNone

/-- `sixp_trans_alloc`. -/
def sixpTransAlloc (cfg : Config) (pkt : Pkt) (peerAddr : α) (s : State α) :
    Option (ℕ × State α) :=
  if pkt.sfid ∉ cfg.schedulingFunctions then none
  else if (sixpTransFind peerAddr s).isSome then none
  else
    match membAlloc cfg s with
    | none => none
    | some b =>
        let t : Trans α :=
          { peerAddr := peerAddr
            seqno := pkt.seqno
            cmd := pkt.code
            state := .init
            mode := determineTransMode pkt
            callback := none
            timer := some .handleTransTimeout
            id := s.allocs }
        let s := s.setTrans b (some t)
        some (b, { s with transList := s.transList ++ [b], allocs := s.allocs + 1 })

/-- `sixp_trans_set_callback`. -/
def sixpTransSetCallback (b : ℕ) (callback : Option ℕ) (s : State α) : State α :=
  match s.trans b with
  | none => s
  | some t => s.setTrans b (some { t with callback := callback })

/-- `sixp_trans_invoke_callback`. -/
def sixpTransInvokeCallback (b : ℕ) (status : OutputStatus) (s : State α) : State α :=
  match (s.trans b).bind Trans.callback with
  | none => s
  | some call => { s with invoked := (call, status) :: s.invoked }

/-- `sixp_trans_abort`. -/
def sixpTransAbort (b : ℕ) (s : State α) : State α :=
  processTrans b (sixpTransInvokeCallback b .aborted (transit b .terminating s))

/-! ## sixp.c -/

/-- The state that `mac_callback` takes a transaction to. -/
def Trans.stateAfter (t : Trans α) (ok : Bool) : TransState :=
  if ok then
    match t.state with
    | .requestSending => .requestSent
    | .responseSending => .responseSent
    | .confirmationSending => .confirmationSent
    | state => state
  else if t.state = .requestSending then .terminating
  else t.state

/-- `mac_callback`; `ok` says that the status is `MAC_TX_OK`. -/
def macCallback (b : ℕ) (ok : Bool) (s : State α) : State α :=
  match s.trans b with
  | none => s
  | some t =>
      if t.state = .waitFree then sixpTransFree b s
      else
        match if t.stateAfter ok = t.state then some s
          else sixpTransTransitState b (t.stateAfter ok) s with
        | none => transit b .terminating s
        | some s =>
            sixpTransSetCallback b none
              (sixpTransInvokeCallback b (if ok then .success else .failure) s)

/-- The outcome of a call. -/
def State.decided (call : Option ℕ) (status : OutputStatus) (s : State α) : State α :=
  match call with
  | none => s
  | some call => { s with outcomes := (call, status) :: s.outcomes }

/-- The `mac_callback` of a frame. -/
def answerFrame (f : Frame) (ok : Bool) (s : State α) : State α :=
  let s := { s with answered := (f.id, (s.trans f.block).map Trans.id) :: s.answered }
  macCallback f.block ok (s.decided f.call (if ok then .success else .failure))

/-- What becomes of a packet in `sixtop_output`: there is no room for the first header, the headers
cannot be made, `NETSTACK_MAC.send` does not accept the frame, or it does. -/
inductive Sent
  | noRoom
  | fatal
  | refused
  | accepted
deriving DecidableEq, Repr

/-- `sixtop_output` with `mac_callback`, and whether it returns 0. -/
def sixtopOutput (b : ℕ) (call : Option ℕ) (sent : Sent) (s : State α) : State α × Bool :=
  match s.trans b with
  | none => (s, false)
  | some t =>
      let f : Frame := ⟨b, t.id, call⟩
      match sent with
      | .noRoom => (s, false)
      | .fatal => (answerFrame f false s, false)
      | .refused => (answerFrame f false s, true)
      | .accepted => ({ s with frames := s.frames ++ [f] }, true)

/-- A call of `sixp_output`: its arguments, whether there is room for the entry of a neighbour and
the packet can be created, and what becomes of it. -/
structure Output (α : Type*) where
  type : PktType
  code : UInt8
  sfid : UInt8
  bodyLen : ℕ
  destAddr : α
  callback : Bool
  nbrFree : Bool
  created : Bool
  sent : Sent

/-- `sixp_output` accepts the state of the transaction with its peer. -/
def Output.Accepts (o : Output α) (trans : Option (Trans α)) : Prop :=
  match o.type, trans with
  | .request, none => True
  | .response, some t => t.state = .requestReceived
  | .confirmation, some t => t.state = .responseReceived
  | _, _ => False

instance (o : Output α) (trans : Option (Trans α)) : Decidable (o.Accepts trans) := by
  unfold Output.Accepts
  split <;> infer_instance

/-- `sixp_output` needs the entry of its peer. -/
def Output.NeedsNbr (o : Output α) (trans : Option (Trans α)) : Prop :=
  match o.type, trans with
  | .request, _ => True
  | .response, some t => t.cmd ≠ cmdClear ∧ o.code ≠ rcErrVersion ∧ o.code ≠ rcErrSfid
  | _, _ => False

instance (o : Output α) (trans : Option (Trans α)) : Decidable (o.NeedsNbr trans) := by
  unfold Output.NeedsNbr
  split <;> infer_instance

/-- The neighbour of `sixp_output`, where `none` is that its entry cannot be made. -/
def Output.withNbr (o : Output α) (trans : Option (Trans α)) (s : State α) : Option (State α) :=
  if s.nextSeqno o.destAddr = none ∧ o.NeedsNbr trans then
    sixpNbrAlloc o.nbrFree o.destAddr s
  else some s

/-- The packet that a request puts into its transaction. -/
def Output.pkt (o : Output α) (seqno : UInt8) : Pkt where
  type := o.type
  code := o.code
  sfid := o.sfid
  seqno := seqno
  bodyLen := o.bodyLen

/-- What `sixp_output` does when `sixtop_output` has returned 0. -/
def afterOutput (b : ℕ) (o : Output α) (s : State α) : State α :=
  match (s.trans b).map Trans.state with
  | some .init =>
      transit b .requestSending
        (changeNextSeqno o.destAddr
          (if o.code = cmdClear then fun _ => 0 else incrementNextSeqno) s)
  | some .requestReceived => transit b .responseSending s
  | some .responseReceived => transit b .confirmationSending s
  | _ => s

/-- The end of `sixp_output`, once there is a transaction. -/
def outputTrans (b : ℕ) (call : Option ℕ) (o : Output α) (s : State α) : State α :=
  match sixtopOutput b call o.sent (sixpTransSetCallback b call s) with
  | (s, true) => afterOutput b o s
  | (s, false) =>
      if o.type = .request then
        sixpTransAbort b (if o.sent = .noRoom then s.decided call .aborted else s)
      else s

/-- `sixp_output`. -/
def sixpOutput (cfg : Config) (o : Output α) (s : State α) : State α :=
  let call := if o.callback then some s.calls else none
  let s := { s with calls := s.calls + 1 }
  let found := sixpTransFind o.destAddr s
  if ¬ o.Accepts (found.bind s.trans) then s
  else
    match o.withNbr (found.bind s.trans) s with
    | none => s
    | some s =>
        if o.created = false then s
        else
          match found with
          | some b => outputTrans b call o s
          | none =>
              match sixpTransAlloc cfg (o.pkt ((s.nextSeqno o.destAddr).getD 0)) o.destAddr s with
              | none => s
              | some (b, s) => outputTrans b call o s

/-- A packet that comes in, if `sixp_pkt_parse` takes it, and what becomes of the error response if
`sixp_output` sends it. -/
structure Input (α : Type*) where
  pkt : Option Pkt
  srcAddr : α
  nbrFree : Bool
  created : Bool
  sent : Sent

/-- The error response that goes through `sixp_output`. -/
def Input.errSeqnum (i : Input α) (pkt : Pkt) : Output α where
  type := .response
  code := rcErrSeqnum
  sfid := pkt.sfid
  bodyLen := 0
  destAddr := i.srcAddr
  callback := false
  nbrFree := i.nbrFree
  created := i.created
  sent := i.sent

/-- `handle_schedule_inconsistency`. An error that `send_back_error` sends at once has no
transaction. -/
def handleScheduleInconsistency (cfg : Config) (i : Input α) (pkt : Pkt) (s : State α) : State α :=
  match (sixpTransFind i.srcAddr s).bind s.trans with
  | some t => if t.state ≠ .requestReceived then s else sixpOutput cfg (i.errSeqnum pkt) s
  | none => sixpOutput cfg (i.errSeqnum pkt) s

/-- The sequence number of a request does not fit the entry of its peer. -/
def IsInconsistent (nextSeqno : Option UInt8) (pkt : Pkt) : Prop :=
  pkt.code ≠ cmdClear ∧
    match nextSeqno with
    | none => pkt.seqno ≠ 0
    | some nextSeqno => nextSeqno ≠ 0 ∧ pkt.seqno = 0

instance (nextSeqno : Option UInt8) (pkt : Pkt) : Decidable (IsInconsistent nextSeqno pkt) := by
  unfold IsInconsistent
  cases nextSeqno <;> infer_instance

/-- The part of `sixp_input` for a request. -/
def inputRequest (cfg : Config) (i : Input α) (pkt : Pkt) (s : State α) : State α :=
  match (sixpTransFind i.srcAddr s).bind s.trans with
  | some t =>
      if pkt.code ≠ cmdClear ∧
          ((pkt.seqno = 0 ∧ t.seqno ≠ 0) ∨ (pkt.seqno ≠ 0 ∧ t.seqno = 0)) then
        handleScheduleInconsistency cfg i pkt s
      else s
  | none =>
      let s := if pkt.code = cmdClear then changeNextSeqno i.srcAddr (fun _ => 0) s else s
      match sixpTransAlloc cfg pkt i.srcAddr s with
      | none => s
      | some (b, s) =>
          let s := transit b .requestReceived s
          if IsInconsistent (s.nextSeqno i.srcAddr) pkt then
            handleScheduleInconsistency cfg i pkt s
          else s

/-- The part of `sixp_input` for a response or a confirmation. -/
def inputReply (newState : TransState) (i : Input α) (pkt : Pkt) (s : State α) : State α :=
  match sixpTransFind i.srcAddr s with
  | none => s
  | some b =>
      if (s.trans b).map Trans.seqno = some pkt.seqno then transit b newState s else s

/-- `sixp_input`. -/
def sixpInput (cfg : Config) (i : Input α) (s : State α) : State α :=
  match i.pkt with
  | none => s
  | some pkt =>
      if pkt.type = .reserved ∨ pkt.sfid ∉ cfg.schedulingFunctions then s
      else
        match pkt.type with
        | .request => inputRequest cfg i pkt s
        | .response => inputReply .responseReceived i pkt s
        | .confirmation => inputReply .confirmationReceived i pkt s
        | .reserved => s

/-! ## Runs -/

/-- A call of `sixp_output`, a packet for `sixp_input`, the timer of a block expires, a frame under
way is answered, or the entry of a neighbour is removed by others. -/
inductive Event (α : Type*)
  | output (o : Output α)
  | input (i : Input α)
  | timer (b : ℕ)
  | macCallback (frame : ℕ) (ok : Bool)
  | nbrRemoved (addr : α)

/-- The state after an event. -/
def step (cfg : Config) (e : Event α) (s : State α) : Option (State α) :=
  match e with
  | .output o => some (sixpOutput cfg o s)
  | .input i => some (sixpInput cfg i s)
  | .timer b =>
      match (s.trans b).bind Trans.timer with
      | none => none
      | some .handleTransTimeout => some (handleTransTimeout b s)
      | some .processTrans => some (processTrans b s)
  | .macCallback frame ok =>
      match s.frames[frame]? with
      | none => none
      | some f => some (answerFrame f ok { s with frames := s.frames.eraseIdx frame })
  | .nbrRemoved addr => some { s with nextSeqno := Function.update s.nextSeqno addr none }

/-- `sixp_init`. -/
def init : State α where
  trans := fun _ => none
  transList := []
  nextSeqno := fun _ => none
  frames := []
  allocs := 0
  calls := 0
  answered := []
  invoked := []
  outcomes := []

end Den2ne.Sixp

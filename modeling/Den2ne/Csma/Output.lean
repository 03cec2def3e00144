import Den2ne.Keyed.Update
import Den2ne.Node.State
import Den2ne.Pool.FirstFit
import Mathlib.Algebra.Group.Nat.Defs

/-!
# The CSMA output queue

`csma-output.c`: packets wait in one queue for each receiver, and only the head
of a queue is scheduled. A `struct packet_queue` and its metadata are blocks of
pools, as is a `struct neighbor_queue`; a block is modelled by its number next
to what it holds. A `transmit_timer` lies in the block of its queue, so the
armed timers are a list of blocks, and a timer could expire for a block that
was given back.

The callback of a packet is called at the end of each handler, so that a
callback that sends again is one more event. `answers` and the fields after it
are history: the callbacks made, the calls that put a packet into a queue, and
the packets that left theirs, in the order in which it happened.
-/

namespace Den2ne

open Keyed

/-- `CSMA_MIN_BE`. -/
def csmaMinBe : ℕ := 3

/-- `CSMA_MAX_BE`. -/
def csmaMaxBe : ℕ := 5

/-- `CSMA_MAX_BACKOFF`. -/
def csmaMaxBackoff : ℕ := 5

/-- `CSMA_MAX_FRAME_RETRIES`. -/
def csmaMaxFrameRetries : ℕ := 7

/-- What the build fixes for the output queue. A receiver may have at least
one packet; by default `CSMA_MAX_PACKET_PER_NEIGHBOR` is the number of queue
buffers. -/
structure CsmaConfig (α : Type*) where
  hlmacCast : HlmacCast
  csmaMaxNeighborQueues : ℕ
  maxQueuedPackets : ℕ
  csmaMaxPacketPerNeighbor : ℕ
  csmaMaxPacketPerNeighbor_pos : 0 < csmaMaxPacketPerNeighbor
  backoffPeriod : ℕ
  linkaddrNull : α

/-- Two receivers, and buffers for eight packets. -/
def unicastCsmaConfig : CsmaConfig ℕ where
  hlmacCast := .unicast
  csmaMaxNeighborQueues := 2
  maxQueuedPackets := 8
  csmaMaxPacketPerNeighbor := 8
  csmaMaxPacketPerNeighbor_pos := by decide
  backoffPeriod := 6
  linkaddrNull := 0

/-- The status of a transmission, `MAC_TX_...`. -/
inductive MacTx
  | ok
  | collision
  | noack
  | err
  | errFatal
deriving DecidableEq, Repr

/-- `struct qbuf_metadata`. -/
structure QbufMetadata (γ : Type*) where
  block : ℕ
  sent : γ
  maxTransmissions : ℕ
deriving DecidableEq, Repr

/-- `struct packet_queue` with its queue buffer. `call` is history: the number
of the call that queued it. -/
structure PacketQueue (β γ : Type*) where
  block : ℕ
  seqno : ℕ
  buf : β
  ptr : QbufMetadata γ
  call : ℕ
deriving DecidableEq, Repr

/-- `struct neighbor_queue`. -/
structure NeighborQueue (α β γ : Type*) where
  block : ℕ
  addr : α
  transmissions : ℕ
  collisions : ℕ
  packetQueue : List (PacketQueue β γ)
deriving DecidableEq, Repr

/-- A sent-callback: the call it answers, its arguments, and the status. -/
structure Answer (γ : Type*) where
  call : ℕ
  sent : γ
  status : MacTx
  numTx : ℕ
deriving DecidableEq, Repr

/-- A call that put a packet into a queue. -/
structure Enqueued (α β : Type*) where
  call : ℕ
  addr : α
  buf : β
deriving DecidableEq, Repr

/-- The globals of `csma-output.c`. `seqno` is `none` until the first call. -/
structure Csma (α β γ : Type*) where
  neighborMemb : Pool.Blocks
  packetMemb : Pool.Blocks
  metadataMemb : Pool.Blocks
  neighbourList : List (NeighborQueue α β γ)
  transmitTimers : List ℕ
  transmissionDelay : ℕ
  seqno : Option ℕ
  calls : ℕ
  answers : List (Answer γ)
  enqueued : List (Enqueued α β)
  departures : List (α × ℕ)

/-- What the lower layers supply to `csma_output_packet`: the draws of
`random_rand`, and whether `queuebuf_new_from_packetbuf` finds a buffer. -/
structure OutputEnv where
  seqnoDraw : ℕ
  delayDraw : ℕ
  queuebuf : Bool
deriving DecidableEq, Repr

/-- What the radio does with a frame: the frame could not be made, the radio
was busy, the frame went out, it collided, or there was another error. A frame
that went out to one receiver is followed by its ACK, by nothing, or by
something else. -/
inductive Radio
  | createFailed
  | busy
  | txOk (ack : Option Bool)
  | txCollision
  | txErr
deriving DecidableEq, Repr

namespace Csma

variable {α β γ : Type*}

/-- `csma_output_init`. -/
def init (cfg : CsmaConfig α) : Csma α β γ where
  neighborMemb := Pool.init cfg.csmaMaxNeighborQueues
  packetMemb := Pool.init cfg.maxQueuedPackets
  metadataMemb := Pool.init cfg.maxQueuedPackets
  neighbourList := []
  transmitTimers := []
  transmissionDelay := 1000
  seqno := none
  calls := 0
  answers := []
  enqueued := []
  departures := []

/-- The packets of all queues. -/
def packets (s : Csma α β γ) : List (PacketQueue β γ) :=
  s.neighbourList.flatMap (·.packetQueue)

/-- Write a queue back to its block. -/
def put (n : NeighborQueue α β γ) (s : Csma α β γ) : Csma α β γ :=
  { s with neighbourList := updateAt (·.block) n.block (fun _ => n) s.neighbourList }

/-- `list_remove` and `memb_free` of a queue. -/
def remove (n : NeighborQueue α β γ) (s : Csma α β γ) : Csma α β γ :=
  { s with
    neighbourList := s.neighbourList.eraseP (·.block = n.block)
    neighborMemb := Pool.free s.neighborMemb n.block }

/-- The delay that `schedule_transmission` draws. -/
def backoffDelay (cfg : CsmaConfig α) (draw collisions : ℕ) : ℕ :=
  let delay := (2 ^ min (collisions + csmaMinBe) csmaMaxBe - 1) * cfg.backoffPeriod
  if 0 < delay then draw % delay else delay

/-- `schedule_transmission`. -/
def scheduleTransmission (cfg : CsmaConfig α) (draw : ℕ) (n : NeighborQueue α β γ)
    (s : Csma α β γ) : Csma α β γ :=
  { s with
    transmitTimers := s.transmitTimers.insert n.block
    transmissionDelay :=
      match cfg.hlmacCast with
      | .unicast => backoffDelay cfg draw n.collisions
      | .broadcast => s.transmissionDelay }

/-- `free_packet`: the next packet is scheduled, or the queue goes. -/
def freePacket (cfg : CsmaConfig α) (draw : ℕ) (n : NeighborQueue α β γ) (q : PacketQueue β γ)
    (s : Csma α β γ) : Csma α β γ :=
  let n := { n with packetQueue := n.packetQueue.eraseP (·.block = q.block) }
  let s := { s with
    metadataMemb := Pool.free s.metadataMemb q.ptr.block
    packetMemb := Pool.free s.packetMemb q.block
    departures := s.departures ++ [(n.addr, q.call)] }
  match n.packetQueue with
  | _ :: _ =>
      let n := { n with transmissions := 0, collisions := 0 }
      (s.put n).scheduleTransmission cfg draw n
  | [] => { s with transmitTimers := s.transmitTimers.erase n.block }.remove n

/-- `mac_call_sent_callback`. -/
def callSentCallback (call : ℕ) (sent : γ) (status : MacTx) (numTx : ℕ) (s : Csma α β γ) :
    Csma α β γ :=
  { s with answers := ⟨call, sent, status, numTx⟩ :: s.answers }

/-- `tx_done`. -/
def txDone (cfg : CsmaConfig α) (draw : ℕ) (status : MacTx) (q : PacketQueue β γ)
    (n : NeighborQueue α β γ) (s : Csma α β γ) : Csma α β γ :=
  (s.freePacket cfg draw n q).callSentCallback q.call q.ptr.sent status n.transmissions

/-- `rexmit`, for a queue whose counters have changed. -/
def rexmit (cfg : CsmaConfig α) (draw : ℕ) (n : NeighborQueue α β γ) (s : Csma α β γ) :
    Csma α β γ :=
  (s.put n).scheduleTransmission cfg draw n

/-- `collision`. -/
def collision (cfg : CsmaConfig α) (draw : ℕ) (q : PacketQueue β γ) (n : NeighborQueue α β γ)
    (s : Csma α β γ) : Csma α β γ :=
  let n := { n with collisions := (n.collisions + 1) % 256 }
  let n :=
    if csmaMaxBackoff < n.collisions then
      { n with collisions := 0, transmissions := (n.transmissions + 1) % 256 }
    else n
  if q.ptr.maxTransmissions ≤ n.transmissions then s.txDone cfg draw .collision q n
  else s.rexmit cfg draw n

/-- `noack`. -/
def noack (cfg : CsmaConfig α) (draw : ℕ) (q : PacketQueue β γ) (n : NeighborQueue α β γ)
    (s : Csma α β γ) : Csma α β γ :=
  let n := { n with collisions := 0, transmissions := (n.transmissions + 1) % 256 }
  if q.ptr.maxTransmissions ≤ n.transmissions then s.txDone cfg draw .noack q n
  else s.rexmit cfg draw n

/-- `tx_ok`. -/
def txOk (cfg : CsmaConfig α) (draw : ℕ) (q : PacketQueue β γ) (n : NeighborQueue α β γ)
    (s : Csma α β γ) : Csma α β γ :=
  s.txDone cfg draw .ok q
    { n with collisions := 0, transmissions := (n.transmissions + 1) % 256 }

/-- `packet_sent`. -/
def packetSent (cfg : CsmaConfig α) (draw : ℕ) (n : NeighborQueue α β γ) (q : PacketQueue β γ)
    (status : MacTx) (s : Csma α β γ) : Csma α β γ :=
  match status with
  | .ok => s.txOk cfg draw q n
  | .noack => s.noack cfg draw q n
  | .collision => s.collision cfg draw q n
  | .err => s.txDone cfg draw .err q n
  | .errFatal => s.txDone cfg draw .errFatal q n

/-- The status that `send_one_packet` makes of what the radio does. -/
def sendOnePacket (isBroadcast : Bool) : Radio → MacTx
  | .createFailed => .errFatal
  | .busy => .collision
  | .txOk ack =>
      if isBroadcast then .ok
      else match ack with
        | some true => .ok
        | some false => .collision
        | none => .noack
  | .txCollision => .collision
  | .txErr => .err

variable [DecidableEq α]

/-- `transmit_from_queue`, for the queue in this block; `none` if there is no
queue in it. -/
def transmitFromQueue (cfg : CsmaConfig α) (block : ℕ) (radio : Radio) (draw : ℕ)
    (s : Csma α β γ) : Option (Csma α β γ) :=
  match s.neighbourList.find? (·.block = block) with
  | none => none
  | some n =>
      match n.packetQueue with
      | [] => some s
      | q :: _ =>
          some (s.packetSent cfg draw n q (sendOnePacket (n.addr = cfg.linkaddrNull) radio))

/-- The sequence number of a new packet, which is never `0`. -/
def nextSeqno (seqnoDraw : ℕ) (seqno : Option ℕ) : ℕ :=
  let seqno := seqno.getD (seqnoDraw % 256)
  if seqno = 0 then 1 else seqno

/-- `metadata->max_transmissions`, an 8-bit field. -/
def maxTransmissions (attr : ℕ) : ℕ :=
  if attr % 256 = 0 then csmaMaxFrameRetries + 1 else attr % 256

/-- The last step of `csma_output_packet`: a packet could not be queued. -/
def dropPacket (call : ℕ) (sent : γ) (s : Csma α β γ) : Csma α β γ :=
  s.callSentCallback call sent .err 1

/-- A queue that got no packet goes if it is empty. -/
def dropQueue (n : NeighborQueue α β γ) (s : Csma α β γ) : Csma α β γ :=
  if n.packetQueue.length = 0 then s.remove n else s

/-- `csma_output_packet` with the queue of the receiver: blocks for the packet
and its metadata and a buffer, one after the other, given back in the opposite
order. -/
def enqueuePacket (cfg : CsmaConfig α) (env : OutputEnv) (sent : γ) (buf : β) (attr seqno call : ℕ)
    (n : NeighborQueue α β γ) (s : Csma α β γ) : Csma α β γ :=
  if n.packetQueue.length < cfg.csmaMaxPacketPerNeighbor then
    match Pool.alloc s.packetMemb with
    | none => (s.dropQueue n).dropPacket call sent
    | some (block, packetMemb) =>
        let s := { s with packetMemb := packetMemb }
        match Pool.alloc s.metadataMemb with
        | none =>
            ({ s with packetMemb := Pool.free s.packetMemb block }.dropQueue n).dropPacket call sent
        | some (metadataBlock, metadataMemb) =>
            let s := { s with metadataMemb := metadataMemb }
            if env.queuebuf then
              let q : PacketQueue β γ :=
                ⟨block, seqno, buf, ⟨metadataBlock, sent, maxTransmissions attr⟩, call⟩
              let isHead := n.packetQueue.isEmpty
              let n := { n with packetQueue := n.packetQueue ++ [q] }
              let s := { s.put n with enqueued := s.enqueued ++ [⟨call, n.addr, buf⟩] }
              if isHead then s.scheduleTransmission cfg env.delayDraw n else s
            else
              let s := { s with
                metadataMemb := Pool.free s.metadataMemb metadataBlock
                packetMemb := Pool.free s.packetMemb block }
              (s.dropQueue n).dropPacket call sent
  else s.dropPacket call sent

/-- `csma_output_packet`. -/
def csmaOutputPacket (cfg : CsmaConfig α) (env : OutputEnv) (sent : γ) (addr : α) (buf : β)
    (attr : ℕ) (s : Csma α β γ) : Csma α β γ :=
  let call := s.calls
  let seqno := nextSeqno env.seqnoDraw s.seqno
  let s := { s with calls := s.calls + 1, seqno := some ((seqno + 1) % 256) }
  match s.neighbourList.find? (·.addr = addr) with
  | some n => s.enqueuePacket cfg env sent buf attr seqno call n
  | none =>
      match Pool.alloc s.neighborMemb with
      | none => s.dropPacket call sent
      | some (block, neighborMemb) =>
          let n : NeighborQueue α β γ := ⟨block, addr, 0, 0, []⟩
          { s with
            neighborMemb := neighborMemb
            neighbourList := s.neighbourList ++ [n] }.enqueuePacket cfg env sent buf attr seqno call n

end Csma

/-- What can happen to the output queue: a packet is handed over, with its
callback, receiver, contents and `PACKETBUF_ATTR_MAX_MAC_TRANSMISSIONS`; or a
transmit timer expires. -/
inductive CsmaEvent (α β γ : Type*)
  | output (sent : γ) (addr : α) (buf : β) (attr : ℕ) (env : OutputEnv)
  | transmit (block : ℕ) (radio : Radio) (draw : ℕ)
deriving DecidableEq, Repr

/-- One event of the output queue. -/
def Csma.step {α β γ : Type*} [DecidableEq α] (cfg : CsmaConfig α) (e : CsmaEvent α β γ)
    (s : Csma α β γ) : Option (Csma α β γ) :=
  match e with
  | .output sent addr buf attr env => some (s.csmaOutputPacket cfg env sent addr buf attr)
  | .transmit block radio draw =>
      if block ∈ s.transmitTimers then
        { s with transmitTimers := s.transmitTimers.erase block }.transmitFromQueue cfg block radio
          draw
      else none

end Den2ne

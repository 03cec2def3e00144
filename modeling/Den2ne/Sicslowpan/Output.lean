import Den2ne.Sicslowpan.Run

/-!
# Cutting a packet

`output` of `sicslowpan.c` from the place on where the headers are compressed: a packet that is
too large for a frame is sent in fragments.

`int` has 32 bits. Memories have no end; a frame ends at `packetbuf_datalen`. What the lower
layers do with a frame is a parameter.
-/

namespace Den2ne.Sicslowpan

open Memory

/-- `SET16`. -/
def set16 (m : ℕ → UInt8) (index value : ℕ) : ℕ → UInt8 :=
  store m index [UInt8.ofNat (value / 256), UInt8.ofNat value]

/-- `x & 0xfffffff8`. -/
def mask8 (x : ℤ) : ℤ := Int.bmod ((x % 2 ^ 32).toNat &&& 0xfffffff8 : ℕ) (2 ^ 32)

/-- What the lower layers do with a fragment: there is no queue buffer for it, or it is sent.
Then there is the value of `last_tx_status`, and what they leave in `packetbuf`. -/
inductive Reply
  | noBuffer
  | sent (lastTxStatus : ℤ) (packetbuf : ℕ → UInt8)

/-- `packetbuf`, and the frames that were sent. -/
structure Sending where
  packetbuf : ℕ → UInt8
  frames : List (List UInt8)

/-- `fragment_copy_payload_and_send`. The status `1` is `MAC_TX_COLLISION`, and `4` is
`MAC_TX_ERR`. The length is not negative. -/
def fragmentCopyPayloadAndSend (uip : ℕ → UInt8) (uipOffset hdrLen : ℕ) (payloadLen : ℤ)
    (reply : Reply) (s : Sending) : Bool × Sending :=
  let packetbuf := store s.packetbuf hdrLen (load uip uipOffset payloadLen.toNat)
  let frame := load packetbuf 0 ((payloadLen.toNat + hdrLen) % 65536)
  match reply with
  | .noBuffer => (false, { s with packetbuf })
  | .sent lastTxStatus left =>
      (decide (¬ (lastTxStatus = 1 ∨ 4 ≤ lastTxStatus)), ⟨store left 0 frame, s.frames ++ [frame]⟩)

/-- A packet in `uip_buf` whose compressed headers are in `packetbuf`. -/
structure Datagram where
  uip : ℕ → UInt8
  uipLen : UInt16
  uncompHdrLen : UInt8
  packetbuf : ℕ → UInt8
  packetbufHdrLen : UInt8
  macMaxPayload : ℤ
  myTag : UInt16
  /-- A frame has its place in `packetbuf`, whose lengths have 16 bits. -/
  macMaxPayload_le : macMaxPayload ≤ 65535

namespace Datagram

variable (d : Datagram)

def FragNeeded : Prop :=
  d.macMaxPayload < d.uipLen.toNat - d.uncompHdrLen.toNat + d.packetbufHdrLen.toNat

instance : Decidable d.FragNeeded := by unfold FragNeeded; infer_instance

def totalPayload : ℤ := d.uipLen.toNat - d.uncompHdrLen.toNat

def frag1Payload : ℤ := mask8 (d.macMaxPayload - d.packetbufHdrLen.toNat - 4)

def fragnMaxPayload : ℤ := mask8 (d.macMaxPayload - 5)

def lastFragnMaxPayload : ℤ := d.macMaxPayload - 5

def middleFragnTotalPayload : ℤ :=
  max (d.totalPayload - d.frag1Payload - d.lastFragnMaxPayload) 0

def fragmentCount : ℕ :=
  2 + if 0 < d.middleFragnTotalPayload then
    (1 + (d.middleFragnTotalPayload - 1).tdiv d.fragnMaxPayload).toNat
  else 0

end Datagram

/-- What `output` has done: its result, the frames that were sent, and `my_tag`. -/
structure Sent where
  value : Bool
  frames : List (List UInt8)
  myTag : UInt16

/-- The loop of `output`; it has the fragment `curr_frag` behind it. `none` if the fuel does not
suffice. -/
def outputLoop (d : Datagram) (replies : ℕ → Reply) :
    ℕ → ℕ → ℕ → Sending → Option (Bool × Sending)
  | 0, _, _, _ => none
  | fuel + 1, currFrag, processed, s =>
      if processed < d.uipLen.toNat then
        let packetbuf := store s.packetbuf 4 [UInt8.ofNat (processed / 8)]
        let left : ℤ := d.uipLen.toNat - processed
        let payloadLen := if d.lastFragnMaxPayload < left then d.fragnMaxPayload else left
        match fragmentCopyPayloadAndSend d.uip processed 5 payloadLen (replies (currFrag + 1))
            { s with packetbuf } with
        | (false, s) => some (false, s)
        | (true, s) =>
            outputLoop d replies fuel (currFrag + 1) ((processed + payloadLen) % 65536).toNat s
      else some (true, s)

/-- `output` for a packet that must be fragmented. `numfree` queue buffers are free. -/
def outputFragments (d : Datagram) (numfree : ℕ) (replies : ℕ → Reply) (fuel : ℕ) : Option Sent :=
  if numfree < d.fragmentCount + 1 then some ⟨false, [], d.myTag⟩
  else if d.frag1Payload < 0 then some ⟨false, [], d.myTag⟩
  else
    let moved := store d.packetbuf 4 (load d.packetbuf 0 d.packetbufHdrLen.toNat)
    let packetbuf := set16 (set16 moved 0 (0xC0 <<< 8 ||| d.uipLen.toNat)) 2 d.myTag.toNat
    let hdrLen := (d.packetbufHdrLen + 4).toNat
    match fragmentCopyPayloadAndSend d.uip d.uncompHdrLen.toNat hdrLen d.frag1Payload (replies 0)
        ⟨packetbuf, []⟩ with
    | (false, s) => some ⟨false, s.frames, d.myTag + 1⟩
    | (true, s) =>
        (outputLoop d replies fuel 0 ((d.uncompHdrLen.toNat + d.frag1Payload) % 65536).toNat
          { s with packetbuf := set16 s.packetbuf 0 (0xE0 <<< 8 ||| d.uipLen.toNat) }).map
          fun result => ⟨result.1, result.2.frames, d.myTag + 1⟩

/-- `output`, once the headers are compressed. -/
def output (d : Datagram) (numfree : ℕ) (replies : ℕ → Reply) (fuel : ℕ) : Option Sent :=
  if d.FragNeeded then outputFragments d numfree replies fuel
  else if d.uipLen < d.uncompHdrLen.toUInt16 then some ⟨false, [], d.myTag⟩
  else
    let len := d.uipLen.toNat - d.uncompHdrLen.toNat
    let packetbuf := store d.packetbuf d.packetbufHdrLen.toNat
      (load d.uip d.uncompHdrLen.toNat len)
    some ⟨true, [load packetbuf 0 ((len + d.packetbufHdrLen.toNat) % 65536)], d.myTag⟩

end Den2ne.Sicslowpan

import Den2ne.Frame802154e.Elements

/-!
# Information elements that are written

The `frame80215e_create_ie_*` functions of `frame802154e-ie.c`, but for the one of the IETF element.
An element is the descriptor, which is written last, and the content behind it; a function that
returns -1 writes nothing.
-/

namespace Den2ne.Frame802154e

/-- What a function writes, and what it returns. -/
structure Created where
  ieDesc : ℕ
  content : List UInt8
  value : ℕ

/-- `WRITE16`. -/
def write16 (val : ℕ) : List UInt8 := [UInt8.ofNat val, UInt8.ofNat (val / 256)]

/-- The memory after the element was written from `buf` on. -/
def Created.store (c : Created) (buf : ℕ) (m : ℕ → UInt8) : ℕ → UInt8 :=
  Memory.store (Memory.store m (buf + 2) c.content) buf (write16 c.ieDesc)

/-! ## Descriptors -/

def createHeaderIeDescriptor (elementId ieLen : ℕ) : ℕ := ieLen % 0x80 + elementId % 0x100 * 0x80

def createPayloadIeDescriptor (groupId ieLen : ℕ) : ℕ :=
  ieLen % 0x800 + groupId % 0x10 * 0x800 + 0x8000

def createMlmeShortIeDescriptor (subId ieLen : ℕ) : ℕ := ieLen % 0x100 + subId % 0x80 * 0x100

def createMlmeLongIeDescriptor (subId ieLen : ℕ) : ℕ :=
  ieLen % 0x800 + subId % 0x10 * 0x800 + 0x8000

/-! ## Elements -/

/-- `frame80215e_create_ie_header_ack_nack_time_correction`. -/
def createIeHeaderAckNackTimeCorrection (len : ℕ) (ies : Ies) : Option Created :=
  if 4 ≤ len then
    some
      { ieDesc := createHeaderIeDescriptor headerIeAckNackTimeCorrection 2
        content := write16 ((ies.ieTimeCorrection % 0x1000).toNat +
          if ies.ieIsNack ≠ 0 then 0x8000 else 0)
        value := 4 }
  else none

/-- An element without content. -/
def createEmpty (ieDesc len : ℕ) : Option Created :=
  if 2 ≤ len then some ⟨ieDesc, [], 2⟩ else none

/-- `frame80215e_create_ie_header_list_termination_1`. -/
def createIeHeaderListTermination1 (len : ℕ) : Option Created :=
  createEmpty (createHeaderIeDescriptor headerIeListTermination1 0) len

/-- `frame80215e_create_ie_header_list_termination_2`. -/
def createIeHeaderListTermination2 (len : ℕ) : Option Created :=
  createEmpty (createHeaderIeDescriptor headerIeListTermination2 0) len

/-- `frame80215e_create_ie_payload_list_termination`. -/
def createIePayloadListTermination (len : ℕ) : Option Created :=
  createEmpty (createPayloadIeDescriptor payloadIeListTermination 0) len

/-- `frame80215e_create_ie_mlme`. -/
def createIeMlme (len : ℕ) (ies : Ies) : Option Created :=
  createEmpty (createPayloadIeDescriptor payloadIeMlme ies.ieMlmeLen.toNat) len

/-- `frame80215e_create_ie_tsch_synchronization`. -/
def createIeTschSynchronization (len : ℕ) (ies : Ies) : Option Created :=
  if 8 ≤ len then
    some
      { ieDesc := createMlmeShortIeDescriptor mlmeShortIeTschSynchronization 6
        content := write16 ies.ieAsn.ls4b.toNat ++ write16 (ies.ieAsn.ls4b.toNat / 65536) ++
          [ies.ieAsn.ms1b, ies.ieJoinPriority]
        value := 8 }
  else none

/-- The bytes of a link. -/
def linkBytes (l : IeLink) : List UInt8 :=
  write16 l.timeslot.toNat ++ write16 l.channelOffset.toNat ++ [l.linkOptions]

/-- `frame80215e_create_ie_tsch_slotframe_and_link`. -/
def createIeTschSlotframeAndLink (len : ℕ) (ies : Ies) : Option Created :=
  let s := ies.ieTschSlotframeAndLink
  let ieLen := 1 + s.numSlotframes.toNat * (4 + 5 * s.numLinks.toNat)
  if 1 < s.numSlotframes.toNat ∨ frame802154eIeMaxLinks < s.numLinks.toNat ∨ len < 2 + ieLen then
    none
  else
    some
      { ieDesc := createMlmeShortIeDescriptor mlmeShortIeTschSloftrameAndLink ieLen
        content := s.numSlotframes ::
          if s.numSlotframes = 1 then
            s.slotframeHandle :: write16 s.slotframeSize.toNat ++
              s.numLinks :: ((Memory.load s.links 0 s.numLinks.toNat).flatMap linkBytes)
          else []
        value := 2 + ieLen }

/-- `frame80215e_create_ie_tsch_timeslot`. -/
def createIeTschTimeslot (len : ℕ) (ies : Ies) : Option Created :=
  let ieLen := if ies.ieTschTimeslotId = 0 then 1 else 25
  if 2 + ieLen ≤ len then
    some
      { ieDesc := createMlmeShortIeDescriptor mlmeShortIeTschTimeslot ieLen
        content := ies.ieTschTimeslotId ::
          if ies.ieTschTimeslotId ≠ 0 then
            (Memory.load ies.ieTschTimeslot 0 tschTsElementsCount).flatMap fun v =>
              write16 v.toNat
          else []
        value := 2 + ieLen }
  else none

/-- `frame80215e_create_ie_tsch_channel_hopping_sequence`. The sequence is written for every
identifier. -/
def createIeTschChannelHoppingSequence (cfg : Config) (len : ℕ) (ies : Ies) : Option Created :=
  let sequenceLen := ies.ieHoppingSequenceLen.toNat
  let ieLen := if ies.ieChannelHoppingSequenceId = 0 then 1 else 12 + sequenceLen
  if sequenceLen ≤ cfg.tschHoppingSequenceMaxLen ∧ 2 + ieLen ≤ len then
    some
      { ieDesc := createMlmeLongIeDescriptor mlmeLongIeTschChannelHoppingSequence ieLen
        content := [ies.ieChannelHoppingSequenceId, 0] ++ write16 0 ++ write16 0 ++ write16 0 ++
          write16 sequenceLen ++ Memory.load ies.ieHoppingSequenceList 0 sequenceLen ++ write16 0
        value := 2 + ieLen }
  else none

/-! ## Sequences -/

/-- The sub-elements of an MLME element. -/
inductive SubElement
  | synchronization
  | slotframeAndLink
  | timeslot
  | channelHoppingSequence
deriving DecidableEq, Repr

/-- The elements. -/
inductive Element
  | ackNackTimeCorrection
  | headerListTermination1
  | headerListTermination2
  | payloadListTermination
  | mlme
  | sub (e : SubElement)
deriving DecidableEq, Repr

def SubElement.create (cfg : Config) (len : ℕ) (ies : Ies) : SubElement → Option Created
  | .synchronization => createIeTschSynchronization len ies
  | .slotframeAndLink => createIeTschSlotframeAndLink len ies
  | .timeslot => createIeTschTimeslot len ies
  | .channelHoppingSequence => createIeTschChannelHoppingSequence cfg len ies

/-- A call of the function for the element; no `ies` is the NULL pointer. -/
def Element.create (cfg : Config) (len : ℕ) (ies : Option Ies) (e : Element) : Option Created :=
  ies.bind fun ies =>
    match e with
    | .ackNackTimeCorrection => createIeHeaderAckNackTimeCorrection len ies
    | .headerListTermination1 => createIeHeaderListTermination1 len
    | .headerListTermination2 => createIeHeaderListTermination2 len
    | .payloadListTermination => createIePayloadListTermination len
    | .mlme => createIeMlme len ies
    | .sub e => e.create cfg len ies

/-- The elements are written one behind the other from `p` on, into a buffer that ends at `size`:
the memory, and where the last of them ends. -/
def createAll (cfg : Config) (size : ℕ) (ies : Ies) :
    List Element → ℕ → (ℕ → UInt8) → Option ((ℕ → UInt8) × ℕ)
  | [], p, m => some (m, p)
  | e :: es, p, m =>
      match e.create cfg (size - p) (some ies) with
      | none => none
      | some c => createAll cfg size ies es (p + c.value) (c.store p m)

/-- The elements of a frame: header elements, the first list termination, an MLME element with
its sub-elements and the end of the payload elements. -/
def frameElements (headers : ℕ) (subs : List SubElement) : List Element :=
  List.replicate headers .ackNackTimeCorrection ++ .headerListTermination1 :: .mlme ::
    (subs.map .sub ++ [.payloadListTermination])

end Den2ne.Frame802154e

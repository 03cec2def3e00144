import Den2ne.Memory.Range
import Den2ne.Reads.Transfer
import Den2ne.Tsch.NextLink
import Mathlib.Data.Int.Notation

/-!
# Information elements

The parser of `frame802154e-ie.c`. Positions are counted from the first byte of the buffer; the
memory goes on behind it. `buf_size` has eight bits. Bit fields of a descriptor are written with
quotients and remainders. What is logged is left out, and with it the type of a state that is only
printed.
-/

namespace Den2ne.Frame802154e

open Reads Reads.Transfer

/-- What is configured: `TSCH_WITH_SIXTOP` and `TSCH_HOPPING_SEQUENCE_MAX_LEN`. -/
structure Config where
  tschWithSixtop : Bool
  tschHoppingSequenceMaxLen : ℕ

/-! ## The elements -/

/-- `FRAME802154E_IE_MAX_LINKS`. -/
def frame802154eIeMaxLinks : ℕ := 4

/-- `tsch_ts_elements_count`. -/
def tschTsElementsCount : ℕ := 12

/-- `struct tsch_slotframe_and_links_link`. -/
structure IeLink where
  timeslot : UInt16
  channelOffset : UInt16
  linkOptions : UInt8
deriving DecidableEq, Repr, Inhabited

/-- `struct tsch_slotframe_and_links`. -/
structure SlotframeAndLinks where
  numSlotframes : UInt8
  slotframeHandle : UInt8
  slotframeSize : UInt16
  numLinks : UInt8
  links : ℕ → IeLink

/-- `struct ieee802154_ies`. An array is a function on its indices; `sixtop_ie_content_ptr` is a
position in the buffer. -/
structure Ies where
  ieTimeCorrection : ℤ
  ieIsNack : UInt8
  iePayloadIeOffset : UInt8
  ieMlmeLen : UInt16
  ieAsn : Tsch.Asn
  ieJoinPriority : UInt8
  ieTschTimeslotId : UInt8
  ieTschTimeslot : ℕ → UInt16
  ieTschSlotframeAndLink : SlotframeAndLinks
  ieChannelHoppingSequenceId : UInt8
  ieHoppingSequenceLen : UInt16
  ieHoppingSequenceList : ℕ → UInt8
  sixtopIeContentPtr : Option ℕ
  sixtopIeContentLen : UInt16

/-- `HEADER_IE_ACK_NACK_TIME_CORRECTION`. -/
def headerIeAckNackTimeCorrection : ℕ := 0x1e

/-- `HEADER_IE_LIST_TERMINATION_1`. -/
def headerIeListTermination1 : ℕ := 0x7e

/-- `HEADER_IE_LIST_TERMINATION_2`. -/
def headerIeListTermination2 : ℕ := 0x7f

/-- `PAYLOAD_IE_MLME`. -/
def payloadIeMlme : ℕ := 1

/-- `PAYLOAD_IE_IETF`. -/
def payloadIeIetf : ℕ := 5

/-- `PAYLOAD_IE_LIST_TERMINATION`. -/
def payloadIeListTermination : ℕ := 0xf

/-- `MLME_SHORT_IE_TSCH_SYNCHRONIZATION`. -/
def mlmeShortIeTschSynchronization : ℕ := 0x1a

/-- `MLME_SHORT_IE_TSCH_SLOFTRAME_AND_LINK`. -/
def mlmeShortIeTschSloftrameAndLink : ℕ := 0x1b

/-- `MLME_SHORT_IE_TSCH_TIMESLOT`. -/
def mlmeShortIeTschTimeslot : ℕ := 0x1c

/-- `MLME_LONG_IE_TSCH_CHANNEL_HOPPING_SEQUENCE`. -/
def mlmeLongIeTschChannelHoppingSequence : ℕ := 9

/-- `IETF_IE_6TOP`. -/
def ietfIe6top : UInt8 := 0xc9

/-! ## Descriptors -/

/-- The length of a header element, `b0-b6`. -/
def headerLen (ieDesc : ℕ) : ℕ := ieDesc % 0x80

/-- The identifier of a header element, `b7-b14`. -/
def headerId (ieDesc : ℕ) : ℕ := ieDesc / 0x80 % 0x100

/-- The length of a payload element and of a long sub-element, `b0-b10`. -/
def payloadLen (ieDesc : ℕ) : ℕ := ieDesc % 0x800

/-- The identifier of a payload element and of a long sub-element, `b11-b14`. -/
def payloadId (ieDesc : ℕ) : ℕ := ieDesc / 0x800 % 0x10

/-- The length of a short sub-element, `b0-b7`. -/
def shortLen (ieDesc : ℕ) : ℕ := ieDesc % 0x100

/-- The identifier of a short sub-element, `b8-b14`. -/
def shortId (ieDesc : ℕ) : ℕ := ieDesc / 0x100 % 0x80

/-! ## Parsing one element -/

/-- `READ16`. -/
def read16 (buf : ℕ) : Transfer UInt8 ℕ := do
  let low ← get buf
  let high ← get (buf + 1)
  pure (low.toNat + 256 * high.toNat)

/-- `n` numbers of 16 bits that follow one another. -/
def read16s (buf : ℕ) : ℕ → Transfer UInt8 (List UInt16)
  | 0 => pure []
  | n + 1 => do
      let val ← read16 buf
      let rest ← read16s (buf + 2) n
      pure (UInt16.ofNat val :: rest)

/-- `n` bytes that follow one another. -/
def readBytes (buf : ℕ) : ℕ → Transfer UInt8 (List UInt8)
  | 0 => pure []
  | n + 1 => do
      let val ← get buf
      let rest ← readBytes (buf + 1) n
      pure (val :: rest)

/-- The loop over the links of a slotframe. -/
def readLinks (buf : ℕ) : ℕ → Transfer UInt8 (List IeLink)
  | 0 => pure []
  | n + 1 => do
      let timeslot ← read16 buf
      let channelOffset ← read16 (buf + 2)
      let linkOptions ← get (buf + 4)
      let rest ← readLinks (buf + 5) n
      pure (⟨UInt16.ofNat timeslot, UInt16.ofNat channelOffset, linkOptions⟩ :: rest)

/-- The `drift_us` of a 16-bit field, of which the lower 12 bits are a signed number. -/
def driftUs (timeSyncField : ℕ) : ℤ :=
  if 0x800 ≤ timeSyncField % 0x1000 then ((0xf000 + timeSyncField % 0x1000 : ℕ) : ℤ) - 0x10000
  else ((timeSyncField % 0x1000 : ℕ) : ℤ)

/-- `frame802154e_parse_header_ie`. -/
def frame802154eParseHeaderIe (buf len elementId : ℕ) (ies : Ies) : Transfer UInt8 Ies :=
  if elementId = headerIeAckNackTimeCorrection then do
    require (len = 2)
    let timeSyncField ← read16 buf
    pure { ies with
      ieIsNack := if 0x8000 ≤ timeSyncField then 1 else 0
      ieTimeCorrection := driftUs timeSyncField }
  else fail

/-- `frame802154e_parse_mlme_short_ie`. -/
def frame802154eParseMlmeShortIe (buf len subId : ℕ) (ies : Ies) : Transfer UInt8 Ies :=
  if subId = mlmeShortIeTschSloftrameAndLink then do
    require (1 ≤ len)
    let numSlotframes ← get buf
    let numLinks ← get (buf + 4)
    if numSlotframes = 0 then pure ies
    else do
      require (numSlotframes.toNat ≤ 1 ∧ numLinks.toNat ≤ frame802154eIeMaxLinks ∧
        len = 1 + numSlotframes.toNat * (4 + 5 * numLinks.toNat))
      let slotframeHandle ← get (buf + 1)
      let slotframeSize ← read16 (buf + 2)
      let links ← readLinks (buf + 5) numLinks.toNat
      pure { ies with ieTschSlotframeAndLink :=
        ⟨numSlotframes, slotframeHandle, UInt16.ofNat slotframeSize, numLinks,
          Memory.store ies.ieTschSlotframeAndLink.links 0 links⟩ }
  else if subId = mlmeShortIeTschSynchronization then do
    require (len = 6)
    let low ← read16 buf
    let high ← read16 (buf + 2)
    let ms1b ← get (buf + 4)
    let joinPriority ← get (buf + 5)
    pure { ies with
      ieAsn := ⟨UInt32.ofNat (low + 65536 * high), ms1b⟩
      ieJoinPriority := joinPriority }
  else if subId = mlmeShortIeTschTimeslot then do
    require (len = 1 ∨ len = 25)
    let timeslotId ← get buf
    if len = 25 then do
      let timeslot ← read16s (buf + 1) tschTsElementsCount
      pure { ies with
        ieTschTimeslotId := timeslotId
        ieTschTimeslot := Memory.store ies.ieTschTimeslot 0 timeslot }
    else pure { ies with ieTschTimeslotId := timeslotId }
  else fail

/-- `frame802154e_parse_mlme_long_ie`. -/
def frame802154eParseMlmeLongIe (cfg : Config) (buf len subId : ℕ) (ies : Ies) :
    Transfer UInt8 Ies :=
  if subId = mlmeLongIeTschChannelHoppingSequence then do
    require (0 < len)
    let sequenceId ← get buf
    if 1 < len then do
      let sequenceLen ← read16 (buf + 8)
      if sequenceLen ≤ cfg.tschHoppingSequenceMaxLen ∧ len = 12 + sequenceLen then do
        let list ← readBytes (buf + 10) sequenceLen
        pure { ies with
          ieChannelHoppingSequenceId := sequenceId
          ieHoppingSequenceLen := UInt16.ofNat sequenceLen
          ieHoppingSequenceList := Memory.store ies.ieHoppingSequenceList 0 list }
      else pure { ies with
        ieChannelHoppingSequenceId := sequenceId
        ieHoppingSequenceLen := UInt16.ofNat sequenceLen }
    else pure { ies with ieChannelHoppingSequenceId := sequenceId }
  else fail

/-! ## Parsing all elements -/

/-- `parsing_state`. -/
inductive ParsingState
  | parsingHeaderIe
  | parsingPayloadIe
  | parsingMlmeSubie
deriving DecidableEq, Repr

/-- The variables of the loop. `accepted` lists where the elements that were accepted end; the
source has no variable for it. -/
structure Cursor where
  buf : ℕ
  bufSize : UInt8
  parsingState : ParsingState
  nestedMlmeLen : ℕ
  ies : Ies
  accepted : List ℕ

/-- What is returned, and the elements that were accepted. -/
structure Parsed where
  value : ℕ
  ies : Ies
  accepted : List ℕ

/-- How a round of the loop ends, if not with -1. -/
inductive Outcome
  | next (c : Cursor)
  | parsed (r : Parsed)

/-- Go over `len` bytes. -/
def Cursor.advance (c : Cursor) (len : ℕ) : Cursor :=
  { c with buf := c.buf + len, bufSize := c.bufSize - UInt8.ofNat len }

/-- Accept an element. -/
def Cursor.accept (c : Cursor) (ends : List ℕ) (ies : Ies) : Cursor :=
  { c with ies := ies, accepted := c.accepted ++ ends }

/-- The case `PARSING_HEADER_IE`; the descriptor was read. -/
def parseHeader (ieDesc : ℕ) (c : Cursor) : Transfer UInt8 Outcome := do
  require (ieDesc < 0x8000)
  let len := headerLen ieDesc
  let id := headerId ieDesc
  if id = headerIeListTermination1 then do
    require (len = 0)
    let c := c.accept [c.buf] { c.ies with iePayloadIeOffset := UInt8.ofNat c.buf }
    pure (.next { c with parsingState := .parsingPayloadIe })
  else if id = headerIeListTermination2 then do
    require (len = 0)
    pure (.parsed ⟨c.buf, { c.ies with iePayloadIeOffset := UInt8.ofNat c.buf },
      c.accepted ++ [c.buf]⟩)
  else do
    require (len ≤ c.bufSize.toNat)
    let ies ← frame802154eParseHeaderIe c.buf len id c.ies
    pure (.next ((c.accept [c.buf + len] ies).advance len))

/-- The case `PARSING_PAYLOAD_IE`. -/
def parsePayload (cfg : Config) (ieDesc : ℕ) (c : Cursor) : Transfer UInt8 Outcome := do
  require (0x8000 ≤ ieDesc)
  let len := payloadLen ieDesc
  let id := payloadId ieDesc
  if id = payloadIeMlme then
    pure (.next { c.accept [c.buf + len] c.ies with
      parsingState := .parsingMlmeSubie
      nestedMlmeLen := len })
  else if cfg.tschWithSixtop ∧ id = payloadIeIetf then do
    let subId ← get c.buf
    if subId = ietfIe6top then
      let contentLen := UInt16.ofNat (len + 65535)
      let ies := { c.ies with
        sixtopIeContentPtr := some (c.buf + 1)
        sixtopIeContentLen := contentLen }
      pure (.next ((c.accept [c.buf + len, c.buf + 1 + contentLen.toNat] ies).advance len))
    else pure (.next ((c.accept [c.buf + len] c.ies).advance len))
  else if id = payloadIeListTermination then do
    require (len = 0)
    pure (.parsed ⟨c.buf, c.ies, c.accepted ++ [c.buf]⟩)
  else fail

/-- Go over a sub-element of `len` bytes. -/
def leaveSubie (len : ℕ) (ies : Ies) (c : Cursor) : Transfer UInt8 Outcome := do
  require (2 + len ≤ c.nestedMlmeLen)
  let nested := c.nestedMlmeLen - (2 + len)
  pure (.next (({ c.accept [c.buf + len] ies with
    nestedMlmeLen := nested
    parsingState := if nested = 0 then .parsingPayloadIe else c.parsingState }).advance len))

/-- The case `PARSING_MLME_SUBIE`. -/
def parseSubie (cfg : Config) (ieDesc : ℕ) (c : Cursor) : Transfer UInt8 Outcome :=
  if ieDesc < 0x8000 then do
    let len := shortLen ieDesc
    let id := shortId ieDesc
    require (len ≤ c.bufSize.toNat)
    let ies ← frame802154eParseMlmeShortIe c.buf len id c.ies
    leaveSubie len ies c
  else do
    let len := payloadLen ieDesc
    let id := payloadId ieDesc
    require (len ≤ c.bufSize.toNat)
    let ies ← frame802154eParseMlmeLongIe cfg c.buf len id c.ies
    leaveSubie len ies c

/-- The `switch` over the state. -/
def parseElement (cfg : Config) (ieDesc : ℕ) (c : Cursor) : Transfer UInt8 Outcome :=
  match c.parsingState with
  | .parsingHeaderIe => parseHeader ieDesc c
  | .parsingPayloadIe => parsePayload cfg ieDesc c
  | .parsingMlmeSubie => parseSubie cfg ieDesc c

/-- One round of the loop. -/
def parseIe (cfg : Config) (c : Cursor) : Transfer UInt8 Outcome := do
  require (2 ≤ c.bufSize.toNat)
  let ieDesc ← read16 c.buf
  parseElement cfg ieDesc (c.advance 2)

/-- What is returned behind the loop. -/
def Cursor.finish (c : Cursor) : Parsed where
  value := c.buf
  ies := match c.parsingState with
    | .parsingHeaderIe => { c.ies with iePayloadIeOffset := UInt8.ofNat c.buf }
    | _ => c.ies
  accepted := c.accepted

/-- The loop, for at most `fuel` rounds; `none` if it has not ended then. -/
def parseLoop (cfg : Config) : ℕ → Cursor → Transfer UInt8 (Option Parsed)
  | 0, _ => pure none
  | fuel + 1, c =>
      if 0 < c.bufSize.toNat then do
        match ← parseIe cfg c with
        | .next c => parseLoop cfg fuel c
        | .parsed r => pure (some r)
      else pure (some c.finish)

/-- `frame802154e_parse_information_elements`; no `ies` is the NULL pointer. -/
def frame802154eParseInformationElements (cfg : Config) (bufSize : UInt8) (ies : Option Ies)
    (fuel : ℕ) : Transfer UInt8 (Option Parsed) :=
  match ies with
  | none => fail
  | some ies => parseLoop cfg fuel
      ⟨0, bufSize, .parsingHeaderIe, 0, { ies with iePayloadIeOffset := 0 }, []⟩

end Den2ne.Frame802154e

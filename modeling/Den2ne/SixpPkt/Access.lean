import Den2ne.Bytes.LittleEndian
import Den2ne.Reads.Transfer
import Den2ne.Sixp.Transaction

/-!
# Fields of 6P packets

`sixp-pkt.c`: where a field is in the body of a message, and the functions that set and get it. A
setter writes the body; a getter reads the body, and `sixp_pkt_get_payload` writes the buffer it is
given. Positions are counted from the first byte of the body; the memory goes on behind it. What a
getter stores through a pointer is its result, a pointer into the body a position and a length.

A command and a return code are the eight bits of `sixp_pkt_code_t`, and integers are little-endian.
-/

namespace Den2ne.SixpPkt

open Reads Reads.Transfer

export Sixp (PktType cmdAdd cmdDelete cmdClear rcErrVersion rcErrSfid rcErrSeqnum)

/-- `SIXP_PKT_CMD_RELOCATE`. -/
def cmdRelocate : UInt8 := 3

/-- `SIXP_PKT_CMD_COUNT`. -/
def cmdCount : UInt8 := 4

/-- `SIXP_PKT_CMD_LIST`. -/
def cmdList : UInt8 := 5

/-- `SIXP_PKT_CMD_SIGNAL`. -/
def cmdSignal : UInt8 := 6

/-- `SIXP_PKT_RC_SUCCESS`. -/
def rcSuccess : UInt8 := 0

/-- `SIXP_PKT_RC_EOL`. -/
def rcEol : UInt8 := 1

/-- The type and the code of a message. -/
structure Msg where
  type : PktType
  code : UInt8
deriving DecidableEq, Repr

/-- `body` and `body_len`. -/
structure Body where
  isNull : Bool
  bodyLen : UInt16
deriving DecidableEq, Repr

/-! ## Offsets -/

/-- The message is a request with one of these commands. -/
def Msg.IsRequest (m : Msg) (cmds : List UInt8) : Prop := m.type = .request ∧ m.code ∈ cmds

/-- The message is a response or a confirmation with one of these codes. -/
def Msg.IsReply (m : Msg) (rcs : List UInt8) : Prop :=
  (m.type = .response ∨ m.type = .confirmation) ∧ m.code ∈ rcs

instance (m : Msg) (cmds : List UInt8) : Decidable (m.IsRequest cmds) :=
  inferInstanceAs (Decidable (_ ∧ _))

instance (m : Msg) (rcs : List UInt8) : Decidable (m.IsReply rcs) :=
  inferInstanceAs (Decidable (_ ∧ _))

/-- `get_metadata_offset`. -/
def getMetadataOffset (m : Msg) : Option ℕ := if m.type = .request then some 0 else none

/-- `get_cell_options_offset`. -/
def getCellOptionsOffset (m : Msg) : Option ℕ :=
  if m.IsRequest [cmdAdd, cmdDelete, cmdRelocate, cmdCount, cmdList] then some 2 else none

/-- `get_num_cells_offset`. -/
def getNumCellsOffset (m : Msg) : Option ℕ :=
  if m.IsRequest [cmdAdd, cmdDelete, cmdRelocate] then some (2 + 1) else none

/-- `get_reserved_offset`. -/
def getReservedOffset (m : Msg) : Option ℕ :=
  if m.IsRequest [cmdList] then some (2 + 1) else none

/-- `get_offset_offset`. -/
def getOffsetOffset (m : Msg) : Option ℕ :=
  if m.IsRequest [cmdList] then some (2 + 1 + 1) else none

/-- `get_max_num_cells_offset`. -/
def getMaxNumCellsOffset (m : Msg) : Option ℕ :=
  if m.IsRequest [cmdList] then some (2 + 1 + 1 + 2) else none

/-- `get_cell_list_offset`. -/
def getCellListOffset (m : Msg) : Option ℕ :=
  if m.IsRequest [cmdAdd, cmdDelete] then some (2 + 1 + 1)
  else if m.IsReply [rcSuccess, rcEol] then some 0
  else none

/-- `get_rel_cell_list_offset`. -/
def getRelCellListOffset (m : Msg) : Option ℕ :=
  if m.IsRequest [cmdRelocate] then some (2 + 1 + 1) else none

/-- `get_total_num_cells_offset`. -/
def getTotalNumCellsOffset (m : Msg) : Option ℕ :=
  if m.type = .response ∧ m.code = rcSuccess then some 0 else none

/-- `get_payload_offset`. -/
def getPayloadOffset (m : Msg) : Option ℕ :=
  if m.IsRequest [cmdSignal] then some 2
  else if m.IsReply [rcSuccess] then some 0
  else none

/-! ## Fields of fixed length -/

/-- The offset of a field, if the message has the field. -/
def needOffset (offset : Option ℕ) : Transfer UInt8 ℕ :=
  match offset with
  | none => fail
  | some offset => pure offset

/-- Set a field to these bytes. -/
def setField (offset : Option ℕ) (bytes : List UInt8) (body : Body) : Transfer UInt8 Unit := do
  require (body.isNull = false)
  let offset ← needOffset offset
  require (offset + bytes.length ≤ body.bodyLen.toNat)
  puts offset bytes

/-- Get the little-endian number in a field of `size` bytes. -/
def getField (offset : Option ℕ) (size : ℕ) (outIsNull : Bool) (body : Body) :
    Transfer UInt8 ℕ := do
  require (outIsNull = false ∧ body.isNull = false)
  let offset ← needOffset offset
  require (offset + size ≤ body.bodyLen.toNat)
  let bytes ← gets offset size
  pure (Bytes.toNat bytes)

/-- `sixp_pkt_set_metadata`. -/
def sixpPktSetMetadata (m : Msg) (metadata : UInt16) (body : Body) : Transfer UInt8 Unit :=
  setField (getMetadataOffset m) (Bytes.ofNat 2 metadata.toNat) body

/-- `sixp_pkt_get_metadata`. -/
def sixpPktGetMetadata (m : Msg) (outIsNull : Bool) (body : Body) : Transfer UInt8 ℕ :=
  getField (getMetadataOffset m) 2 outIsNull body

/-- `sixp_pkt_set_cell_options`. -/
def sixpPktSetCellOptions (m : Msg) (cellOptions : UInt8) (body : Body) : Transfer UInt8 Unit :=
  setField (getCellOptionsOffset m) (Bytes.ofNat 1 cellOptions.toNat) body

/-- `sixp_pkt_get_cell_options`. -/
def sixpPktGetCellOptions (m : Msg) (outIsNull : Bool) (body : Body) : Transfer UInt8 ℕ :=
  getField (getCellOptionsOffset m) 1 outIsNull body

/-- `sixp_pkt_set_num_cells`, which does not test `body_len`. -/
def sixpPktSetNumCells (m : Msg) (numCells : UInt8) (body : Body) : Transfer UInt8 Unit := do
  require (body.isNull = false)
  let offset ← needOffset (getNumCellsOffset m)
  puts offset (Bytes.ofNat 1 numCells.toNat)

/-- `sixp_pkt_get_num_cells`. -/
def sixpPktGetNumCells (m : Msg) (outIsNull : Bool) (body : Body) : Transfer UInt8 ℕ :=
  getField (getNumCellsOffset m) 1 outIsNull body

/-- `sixp_pkt_set_reserved`. -/
def sixpPktSetReserved (m : Msg) (reserved : UInt8) (body : Body) : Transfer UInt8 Unit :=
  setField (getReservedOffset m) (Bytes.ofNat 1 reserved.toNat) body

/-- `sixp_pkt_get_reserved`, which does not test `body_len`. -/
def sixpPktGetReserved (m : Msg) (outIsNull : Bool) (body : Body) : Transfer UInt8 ℕ := do
  require (outIsNull = false ∧ body.isNull = false)
  let offset ← needOffset (getReservedOffset m)
  let bytes ← gets offset 1
  pure (Bytes.toNat bytes)

/-- `sixp_pkt_set_offset`. -/
def sixpPktSetOffset (m : Msg) (cellOffset : UInt16) (body : Body) : Transfer UInt8 Unit :=
  setField (getOffsetOffset m) (Bytes.ofNat 2 cellOffset.toNat) body

/-- `sixp_pkt_get_offset`. -/
def sixpPktGetOffset (m : Msg) (outIsNull : Bool) (body : Body) : Transfer UInt8 ℕ :=
  getField (getOffsetOffset m) 2 outIsNull body

/-- `sixp_pkt_set_max_num_cells`. -/
def sixpPktSetMaxNumCells (m : Msg) (maxNumCells : UInt16) (body : Body) : Transfer UInt8 Unit :=
  setField (getMaxNumCellsOffset m) (Bytes.ofNat 2 maxNumCells.toNat) body

/-- `sixp_pkt_get_max_num_cells`. -/
def sixpPktGetMaxNumCells (m : Msg) (outIsNull : Bool) (body : Body) : Transfer UInt8 ℕ :=
  getField (getMaxNumCellsOffset m) 2 outIsNull body

/-- `sixp_pkt_set_total_num_cells`, which does not test `body_len`. -/
def sixpPktSetTotalNumCells (m : Msg) (totalNumCells : UInt16) (body : Body) :
    Transfer UInt8 Unit := do
  require (body.isNull = false)
  let offset ← needOffset (getTotalNumCellsOffset m)
  puts offset (Bytes.ofNat 2 totalNumCells.toNat)

/-- `sixp_pkt_get_total_num_cells`. -/
def sixpPktGetTotalNumCells (m : Msg) (outIsNull : Bool) (body : Body) : Transfer UInt8 ℕ :=
  getField (getTotalNumCellsOffset m) 2 outIsNull body

/-! ## Lists of cells -/

/-- A list of cells that is passed to a setter: the memory at the pointer, unless it is NULL, the
length and the offset in the field. -/
structure CellList where
  cells : Option (ℕ → UInt8)
  len : UInt16
  cellOffset : UInt16

/-- The bytes of the list. -/
def CellList.bytes (l : CellList) : List UInt8 :=
  match l.cells with
  | none => []
  | some cells => Memory.load cells 0 l.len.toNat

/-- Neither the list nor the body is NULL. -/
def CellList.HasArgs (l : CellList) (body : Body) : Prop :=
  l.cells.isSome ∧ body.isNull = false

instance (l : CellList) (body : Body) : Decidable (l.HasArgs body) :=
  inferInstanceAs (Decidable (_ ∧ _))

/-- A pointer into the body and a length. -/
structure Span where
  start : ℕ
  len : ℕ
deriving DecidableEq, Repr

/-- `sixp_pkt_set_cell_list`. -/
def sixpPktSetCellList (m : Msg) (l : CellList) (body : Body) : Transfer UInt8 Unit := do
  require (l.HasArgs body)
  let offset ← needOffset (getCellListOffset m)
  let offset := offset + l.cellOffset.toNat
  require (offset + l.len.toNat ≤ body.bodyLen.toNat)
  require (l.len.toNat % 4 = 0)
  puts offset l.bytes

/-- `sixp_pkt_get_cell_list`. -/
def sixpPktGetCellList (m : Msg) (outIsNull : Bool) (body : Body) : Transfer UInt8 Span := do
  require (outIsNull = false ∧ body.isNull = false)
  let offset ← needOffset (getCellListOffset m)
  require (offset ≤ body.bodyLen.toNat)
  require ((body.bodyLen.toNat - offset) % 4 = 0)
  pure ⟨offset, body.bodyLen.toNat - offset⟩

/-- `sixp_pkt_set_rel_cell_list`. -/
def sixpPktSetRelCellList (m : Msg) (l : CellList) (body : Body) : Transfer UInt8 Unit := do
  require (l.HasArgs body)
  let numCells ← sixpPktGetNumCells m false body
  let offset ← needOffset (getRelCellListOffset m)
  let offset := offset + l.cellOffset.toNat
  require (offset + l.len.toNat ≤ body.bodyLen.toNat)
  require (offset + l.len.toNat ≤ offset + numCells * 4)
  require (l.len.toNat % 4 = 0)
  puts offset l.bytes

/-- `sixp_pkt_get_rel_cell_list`. -/
def sixpPktGetRelCellList (m : Msg) (outIsNull : Bool) (body : Body) : Transfer UInt8 Span := do
  require (outIsNull = false ∧ body.isNull = false)
  let numCells ← sixpPktGetNumCells m false body
  let offset ← needOffset (getRelCellListOffset m)
  require (offset + numCells * 4 ≤ body.bodyLen.toNat)
  require ((body.bodyLen.toNat - offset) % 4 = 0)
  pure ⟨offset, numCells * 4⟩

/-- `sixp_pkt_set_cand_cell_list`. -/
def sixpPktSetCandCellList (m : Msg) (l : CellList) (body : Body) : Transfer UInt8 Unit := do
  require (l.HasArgs body)
  let numCells ← sixpPktGetNumCells m false body
  let offset ← needOffset (getRelCellListOffset m)
  let offset := offset + (l.cellOffset.toNat + numCells * 4)
  require (offset + l.len.toNat ≤ body.bodyLen.toNat)
  require (l.len.toNat % 4 = 0)
  puts offset l.bytes

/-- `sixp_pkt_get_cand_cell_list`. -/
def sixpPktGetCandCellList (m : Msg) (outIsNull : Bool) (body : Body) : Transfer UInt8 Span := do
  require (outIsNull = false ∧ body.isNull = false)
  let numCells ← sixpPktGetNumCells m false body
  let offset ← needOffset (getRelCellListOffset m)
  let offset := offset + numCells * 4
  require (offset ≤ body.bodyLen.toNat)
  require ((body.bodyLen.toNat - offset) % 4 = 0)
  pure ⟨offset, body.bodyLen.toNat - offset⟩

/-! ## The payload -/

/-- `sixp_pkt_set_payload`; `payload` is the memory at the pointer. -/
def sixpPktSetPayload (m : Msg) (payload : ℕ → UInt8) (payloadLen : UInt16) (body : Body) :
    Transfer UInt8 Unit :=
  setField (getPayloadOffset m) (Memory.load payload 0 payloadLen.toNat) body

/-- `sixp_pkt_get_payload`, which copies `buf_len` bytes into `buf`. -/
def sixpPktGetPayload (m : Msg) (bufIsNull : Bool) (bufLen : UInt16) (body : Body) :
    Transfer UInt8 Unit := do
  require (bufIsNull = false ∧ body.isNull = false)
  let offset ← needOffset (getPayloadOffset m)
  require ((body.bodyLen.toNat : ℤ) - offset ≤ bufLen.toNat)
  copy offset 0 bufLen.toNat

end Den2ne.SixpPkt

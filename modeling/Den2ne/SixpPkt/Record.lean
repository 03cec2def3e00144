import Den2ne.SixpPkt.Bounds
import Den2ne.Transition.Run

/-!
# Records of what is set

The fields that a message of a command has, where they are in the body, and what they were last set
to. A run of setters works on the body; beside it, a record notes the bytes each field was given.
`Kept` says that the body still holds what the record says.

Two setters can break this. `sixp_pkt_set_rel_cell_list` compares `offset + len` with
`offset + num_cells * 4` where `offset` already has `cell_offset` in it, so the list may run into
the candidates; and the candidates are behind as many relocated cells as `NumCells` says.
-/

namespace Den2ne.SixpPkt

open Reads Reads.Transfer

/-- A field of a message. -/
inductive Field
  | metadata
  | cellOptions
  | numCells
  | reserved
  | offset
  | maxNumCells
  | cellList
  | relCellList
  | candCellList
  | totalNumCells
  | payload
deriving DecidableEq, Repr

/-- The offset that the accessors of the field start from. -/
def Field.offsetOf (m : Msg) : Field → Option ℕ
  | metadata => getMetadataOffset m
  | cellOptions => getCellOptionsOffset m
  | numCells => getNumCellsOffset m
  | reserved => getReservedOffset m
  | offset => getOffsetOffset m
  | maxNumCells => getMaxNumCellsOffset m
  | cellList => getCellListOffset m
  | relCellList => getRelCellListOffset m
  | candCellList => getRelCellListOffset m
  | totalNumCells => getTotalNumCellsOffset m
  | payload => getPayloadOffset m

/-- The field of a reply to a command. -/
def replyField (cmd : UInt8) : Option Field :=
  if cmd ∈ [cmdAdd, cmdDelete, cmdRelocate, cmdList] then some .cellList
  else if cmd = cmdCount then some .totalNumCells
  else if cmd = cmdSignal then some .payload
  else none

/-- The message of the command `cmd` has the field. -/
def HasField (cmd : UInt8) (m : Msg) (f : Field) : Prop :=
  f.offsetOf m ≠ none ∧ (m.type = .request ∨ replyField cmd = some f)

instance (cmd : UInt8) (m : Msg) (f : Field) : Decidable (HasField cmd m f) :=
  inferInstanceAs (Decidable (_ ∧ _))

/-- The candidates are behind the `n` cells to relocate. -/
def Field.shift (n : ℕ) : Field → ℕ
  | candCellList => n * 4
  | _ => 0

/-- The position of a byte of the field. -/
def Field.pos (m : Msg) (n : ℕ) (f : Field) (i : ℕ) : ℕ :=
  (f.offsetOf m).getD 0 + f.shift n + i

/-- The field has a byte with this index. -/
def Field.Holds (n i : ℕ) : Field → Prop
  | metadata | offset | maxNumCells | totalNumCells => i < 2
  | cellOptions | numCells | reserved => i < 1
  | relCellList => i < n * 4
  | cellList | candCellList | payload => True

/-- The field is as long as the body allows. -/
def Field.Open : Field → Prop
  | cellList | relCellList | candCellList | payload => True
  | _ => False

/-- The field that a position of the body belongs to. -/
def owner (cmd : UInt8) (m : Msg) (n p : ℕ) : Option Field :=
  if m.type ≠ .request then replyField cmd
  else if p < 2 then some .metadata
  else if m.code = cmdSignal then some .payload
  else if p < 3 then some .cellOptions
  else if p < 4 then some (if m.code = cmdList then .reserved else .numCells)
  else if m.code = cmdList then some (if p < 6 then .offset else .maxNumCells)
  else if m.code = cmdRelocate then
    some (if p < 4 + n * 4 then .relCellList else .candCellList)
  else some .cellList

/-! ## Setters -/

/-- Bytes of a field. -/
structure Piece where
  field : Field
  start : ℕ
  bytes : List UInt8

/-- What a setter sets. -/
def Call.sets : Call → Option Piece
  | setMetadata metadata => some ⟨.metadata, 0, Bytes.ofNat 2 metadata.toNat⟩
  | setCellOptions cellOptions => some ⟨.cellOptions, 0, Bytes.ofNat 1 cellOptions.toNat⟩
  | setNumCells numCells => some ⟨.numCells, 0, Bytes.ofNat 1 numCells.toNat⟩
  | setReserved reserved => some ⟨.reserved, 0, Bytes.ofNat 1 reserved.toNat⟩
  | setOffset cellOffset => some ⟨.offset, 0, Bytes.ofNat 2 cellOffset.toNat⟩
  | setMaxNumCells maxNumCells => some ⟨.maxNumCells, 0, Bytes.ofNat 2 maxNumCells.toNat⟩
  | setCellList l => some ⟨.cellList, l.cellOffset.toNat, l.bytes⟩
  | setRelCellList l => some ⟨.relCellList, l.cellOffset.toNat, l.bytes⟩
  | setCandCellList l => some ⟨.candCellList, l.cellOffset.toNat, l.bytes⟩
  | setTotalNumCells totalNumCells => some ⟨.totalNumCells, 0, Bytes.ofNat 2 totalNumCells.toNat⟩
  | setPayload payload payloadLen => some ⟨.payload, 0, Memory.load payload 0 payloadLen.toNat⟩
  | _ => none

/-- The byte that each byte of a field was last set to. -/
abbrev Record := Field → ℕ → Option UInt8

/-- Nothing is set. -/
def Record.empty : Record := fun _ _ => none

/-- The record after a piece is set. -/
def Record.set (r : Record) (piece : Piece) : Record := fun f i =>
  if f = piece.field ∧ piece.start ≤ i ∧ i < piece.start + piece.bytes.length then
    piece.bytes[i - piece.start]?
  else r f i

/-- The memory at the body, and the record. -/
structure Build where
  mem : ℕ → UInt8
  record : Record

/-- `NumCells` as it is in the body. -/
def Build.numCells (s : Build) : ℕ := (s.mem 3).toNat

/-- A setter of a field of the command is called; it may fail. -/
def step (cmd : UInt8) (m : Msg) (bodyLen : UInt16) (c : Call) (s : Build) : Option Build :=
  match c.sets with
  | none => none
  | some piece =>
      if HasField cmd m piece.field then
        let call := c.perform m ⟨false, bodyLen⟩
        some ⟨call.target s.mem s.mem,
          if (call.run s.mem).isSome then s.record.set piece else s.record⟩
      else none

/-- The cells to relocate stay within the number of cells, and with cells in the lists the number
does not change. -/
def Undisturbed (m : Msg) (s : Build) : Call → Prop
  | .setNumCells numCells => m.IsRequest [cmdRelocate] → numCells = s.mem 3 ∨
      ∀ i, s.record .relCellList i = none ∧ s.record .candCellList i = none
  | .setRelCellList l => l.cellOffset.toNat + l.len.toNat ≤ s.numCells * 4
  | _ => True

/-- The body holds what the fields were last set to. -/
def Kept (cmd : UInt8) (m : Msg) (bodyLen : ℕ) (s : Build) : Prop :=
  ∀ f i b, s.record f i = some b →
    HasField cmd m f ∧ f.Holds s.numCells i ∧ s.mem (f.pos m s.numCells i) = b ∧
      (f.Open → f.pos m s.numCells i < bodyLen)

variable {cmd : UInt8} {m : Msg} {f g : Field} {n n' i : ℕ} {bodyLen : UInt16} {c : Call}
  {s s' : Build} {piece : Piece} {data : ℕ → UInt8}

/-! ## The layout -/

theorem Field.shift_of_ne (h : f ≠ .candCellList) : f.shift n = 0 := by
  unfold Field.shift
  split
  · exact absurd rfl h
  · rfl

theorem pos_eq {o : ℕ} (h : f.offsetOf m = some o) : f.pos m n i = o + f.shift n + i := by
  rw [Field.pos, h]
  rfl

/-- A field that only requests with some commands have. -/
theorem of_request_field {cmds : List UInt8} {o : ℕ}
    (hf : f.offsetOf m = if m.IsRequest cmds then some o else none) (h : f.offsetOf m ≠ none) :
    m.IsRequest cmds ∧ f.pos m n i = o + f.shift n + i := by
  by_cases hm : m.IsRequest cmds
  · exact ⟨hm, pos_eq (hf.trans (if_pos hm))⟩
  · exact absurd (hf.trans (if_neg hm)) h

/-- A field that replies may have too. -/
theorem of_request_or_reply_field {cmds rcs : List UInt8} {o : ℕ}
    (hf : f.offsetOf m =
      if m.IsRequest cmds then some o else if m.IsReply rcs then some 0 else none)
    (h : f.offsetOf m ≠ none) (hreq : m.type = .request) :
    m.IsRequest cmds ∧ f.pos m n i = o + f.shift n + i := by
  have hreply : ¬ m.IsReply rcs := by
    rintro ⟨htype, _⟩
    rw [hreq] at htype
    exact htype.elim nofun nofun
  rw [if_neg hreply] at hf
  exact of_request_field hf h

theorem Msg.IsRequest.ne {cmds : List UInt8} {code : UInt8} (h : m.IsRequest cmds)
    (hcode : code ∉ cmds) : m.code ≠ code := fun hm => hcode (hm ▸ h.2)

theorem owner_request (hreq : m.type = .request) (p : ℕ) :
    owner cmd m n p =
      if p < 2 then some .metadata
      else if m.code = cmdSignal then some .payload
      else if p < 3 then some .cellOptions
      else if p < 4 then some (if m.code = cmdList then .reserved else .numCells)
      else if m.code = cmdList then some (if p < 6 then .offset else .maxNumCells)
      else if m.code = cmdRelocate then
        some (if p < 4 + n * 4 then .relCellList else .candCellList)
      else some .cellList :=
  if_neg (not_not.2 hreq)

/-- A byte of a field of a request belongs to the field. -/
theorem owner_pos_request (hreq : m.type = .request) (hoff : f.offsetOf m ≠ none)
    (hi : f.Holds n i) : owner cmd m n (f.pos m n i) = some f := by
  rw [owner_request hreq]
  cases f with
  | metadata =>
      have hpos : Field.metadata.pos m n i = 0 + 0 + i := pos_eq (if_pos hreq)
      have hlt : i < 2 := hi
      rw [hpos, if_pos (by omega)]
  | cellOptions =>
      obtain ⟨hm, hpos⟩ := of_request_field (n := n) (i := i) rfl hoff
      have hlt : i < 1 := hi
      rw [hpos, Field.shift_of_ne (by decide), if_neg (by omega),
        if_neg (hm.ne (by decide)), if_pos (by omega)]
  | numCells =>
      obtain ⟨hm, hpos⟩ := of_request_field (n := n) (i := i) rfl hoff
      have hlt : i < 1 := hi
      rw [hpos, Field.shift_of_ne (by decide), if_neg (by omega),
        if_neg (hm.ne (by decide)), if_neg (by omega),
        if_pos (by omega), if_neg (hm.ne (by decide))]
  | reserved =>
      obtain ⟨hm, hpos⟩ := of_request_field (n := n) (i := i) rfl hoff
      have hlt : i < 1 := hi
      have hcode : m.code = cmdList := List.mem_singleton.1 hm.2
      rw [hpos, Field.shift_of_ne (by decide), if_neg (by omega),
        if_neg (hm.ne (by decide)), if_neg (by omega),
        if_pos (by omega), if_pos hcode]
  | offset =>
      obtain ⟨hm, hpos⟩ := of_request_field (n := n) (i := i) rfl hoff
      have hlt : i < 2 := hi
      have hcode : m.code = cmdList := List.mem_singleton.1 hm.2
      rw [hpos, Field.shift_of_ne (by decide), if_neg (by omega),
        if_neg (hm.ne (by decide)), if_neg (by omega),
        if_neg (by omega), if_pos hcode, if_pos (by omega)]
  | maxNumCells =>
      obtain ⟨hm, hpos⟩ := of_request_field (n := n) (i := i) rfl hoff
      have hcode : m.code = cmdList := List.mem_singleton.1 hm.2
      rw [hpos, Field.shift_of_ne (by decide), if_neg (by omega),
        if_neg (hm.ne (by decide)), if_neg (by omega),
        if_neg (by omega), if_pos hcode, if_neg (by omega)]
  | cellList =>
      obtain ⟨hm, hpos⟩ := of_request_or_reply_field (n := n) (i := i) rfl hoff hreq
      rw [hpos, Field.shift_of_ne (by decide), if_neg (by omega),
        if_neg (hm.ne (by decide)), if_neg (by omega),
        if_neg (by omega), if_neg (hm.ne (by decide)), if_neg (hm.ne (by decide))]
  | relCellList =>
      obtain ⟨hm, hpos⟩ := of_request_field (n := n) (i := i) rfl hoff
      have hlt : i < n * 4 := hi
      have hcode : m.code = cmdRelocate := List.mem_singleton.1 hm.2
      rw [hpos, Field.shift_of_ne (by decide), if_neg (by omega),
        if_neg (hm.ne (by decide)), if_neg (by omega),
        if_neg (by omega), if_neg (hm.ne (by decide)), if_pos hcode, if_pos (by omega)]
  | candCellList =>
      obtain ⟨hm, hpos⟩ := of_request_field (n := n) (i := i) rfl hoff
      have hcode : m.code = cmdRelocate := List.mem_singleton.1 hm.2
      rw [hpos, Field.shift, if_neg (by omega), if_neg (hm.ne (by decide)), if_neg (by omega),
        if_neg (by omega), if_neg (hm.ne (by decide)), if_pos hcode, if_neg (by omega)]
  | totalNumCells =>
      refine absurd (if_neg ?_) hoff
      rw [hreq]
      exact fun h => nomatch h.1
  | payload =>
      obtain ⟨hm, hpos⟩ := of_request_or_reply_field (n := n) (i := i) rfl hoff hreq
      have hcode : m.code = cmdSignal := List.mem_singleton.1 hm.2
      rw [hpos, Field.shift_of_ne (by decide), if_neg (by omega), if_pos hcode]

/-- A byte of a field belongs to the field. -/
theorem owner_pos (h : HasField cmd m f) (hi : f.Holds n i) :
    owner cmd m n (f.pos m n i) = some f := by
  by_cases hreq : m.type = .request
  · exact owner_pos_request hreq h.1 hi
  · unfold owner
    rw [if_pos hreq]
    exact h.2.resolve_left hreq

/-! ## What a setter does -/

/-- Where a setter puts the bytes of a piece, and that it stays in the body if the field is open. -/
def Placed (m : Msg) (n bodyLen : ℕ) (piece : Piece) (p : ℕ) (bytes : List UInt8) : Prop :=
  bytes = piece.bytes ∧ p = piece.field.pos m n piece.start ∧
    (piece.field.Open → p + bytes.length ≤ bodyLen)

theorem writes_needOffset (offset : Option ℕ) : (needOffset offset).writes data = [] :=
  (quiet_needOffset (n := 0) offset).writes

theorem pos_start {o : ℕ} (hf : f ≠ .candCellList) (h : f.offsetOf m = some o) :
    o = f.pos m n 0 := by
  rw [pos_eq h, Field.shift_of_ne hf, Nat.add_zero]

theorem stores_setField {bytes : List UInt8} (hf : f ≠ .candCellList) :
    Stores data (setField (f.offsetOf m) bytes ⟨false, bodyLen⟩)
      (Placed m n bodyLen.toNat ⟨f, 0, bytes⟩) := by
  refine stores_require_bind fun _ => stores_bind (writes_needOffset _) fun o ho => ?_
  exact stores_require_bind fun hfit => stores_puts
    ⟨rfl, pos_start hf (run_needOffset.1 ho), fun _ => hfit⟩

theorem stores_untested {bytes : List UInt8} (hf : f ≠ .candCellList) (hopen : ¬ f.Open) :
    Stores data (require (false = false) >>= fun _ => needOffset (f.offsetOf m) >>= fun o =>
      puts o bytes) (Placed m n bodyLen.toNat ⟨f, 0, bytes⟩) := by
  refine stores_require_bind fun _ => stores_bind (writes_needOffset _) fun o ho => ?_
  exact stores_puts ⟨rfl, pos_start hf (run_needOffset.1 ho), fun h => absurd h hopen⟩

theorem getNumCellsOffset_eq {o : ℕ} (h : getNumCellsOffset m = some o) : o = 3 := by
  unfold getNumCellsOffset at h
  split at h
  · exact (Option.some.inj h).symm
  · cases h

theorem run_gets (p k : ℕ) : (gets p k).run data = some (Memory.load data p k) := by
  have hsafe : Safe data (p + k) 0 (gets p k) True (Memory.load data p k) :=
    Safe.gets (Nat.le_refl _)
  exact hsafe.returns.run_eq trivial

theorem run_getField {offset : Option ℕ} {size v : ℕ} {outIsNull : Bool} {body : Body}
    (h : (getField offset size outIsNull body).run data = some v) :
    ∃ o, offset = some o ∧ v = Bytes.toNat (Memory.load data o size) := by
  unfold getField at h
  rw [run_bind, Option.bind_eq_some_iff] at h
  obtain ⟨_, _, h⟩ := h
  rw [run_bind, Option.bind_eq_some_iff] at h
  obtain ⟨o, ho, h⟩ := h
  rw [run_bind, Option.bind_eq_some_iff] at h
  obtain ⟨_, _, h⟩ := h
  rw [run_bind, run_gets] at h
  exact ⟨o, run_needOffset.1 ho, (Option.some.inj h).symm⟩

theorem run_getNumCells {v : ℕ} {body : Body}
    (h : (sixpPktGetNumCells m false body).run data = some v) : v = (data 3).toNat := by
  obtain ⟨o, ho, hv⟩ := run_getField h
  rw [getNumCellsOffset_eq ho] at hv
  exact hv

theorem writes_getNumCells (body : Body) : (sixpPktGetNumCells m false body).writes data = [] :=
  (quiet_getNumCells m false body).writes

theorem stores_setCellList (l : CellList) :
    Stores data (sixpPktSetCellList m l ⟨false, bodyLen⟩)
      (Placed m n bodyLen.toNat ⟨.cellList, l.cellOffset.toNat, l.bytes⟩) := by
  have hle := l.length_bytes_le
  refine stores_require_bind fun _ => stores_bind (writes_needOffset _) fun o ho => ?_
  refine stores_require_bind fun hfit => stores_require_bind fun _ => stores_puts ?_
  exact ⟨rfl, (pos_eq (f := .cellList) (run_needOffset.1 ho)).symm,
    fun _ => Nat.le_trans (Nat.add_le_add_left hle _) hfit⟩

theorem stores_setRelCellList (l : CellList) :
    Stores data (sixpPktSetRelCellList m l ⟨false, bodyLen⟩)
      (Placed m n bodyLen.toNat ⟨.relCellList, l.cellOffset.toNat, l.bytes⟩) := by
  have hle := l.length_bytes_le
  refine stores_require_bind fun _ => stores_bind (writes_getNumCells _) fun _ _ => ?_
  refine stores_bind (writes_needOffset _) fun o ho => stores_require_bind fun hfit => ?_
  refine stores_require_bind fun _ => stores_require_bind fun _ => stores_puts ?_
  exact ⟨rfl, (pos_eq (f := .relCellList) (run_needOffset.1 ho)).symm,
    fun _ => Nat.le_trans (Nat.add_le_add_left hle _) hfit⟩

theorem stores_setCandCellList (l : CellList) :
    Stores data (sixpPktSetCandCellList m l ⟨false, bodyLen⟩)
      (Placed m (data 3).toNat bodyLen.toNat ⟨.candCellList, l.cellOffset.toNat, l.bytes⟩) := by
  have hle := l.length_bytes_le
  refine stores_require_bind fun _ => stores_bind (writes_getNumCells _) fun numCells hn => ?_
  refine stores_bind (writes_needOffset _) fun o ho => stores_require_bind fun hfit => ?_
  refine stores_require_bind fun _ => stores_puts ?_
  refine ⟨rfl, ?_, fun _ => Nat.le_trans (Nat.add_le_add_left hle _) hfit⟩
  dsimp only
  rw [pos_eq (f := .candCellList) (run_needOffset.1 ho), run_getNumCells hn, Field.shift]
  omega

/-- A setter fails and changes nothing, or it puts its bytes into its field. -/
theorem stores_perform (hset : c.sets = some piece) :
    Stores data (c.perform m ⟨false, bodyLen⟩)
      (Placed m (data 3).toNat bodyLen.toNat piece) := by
  cases c with
  | setMetadata metadata =>
      obtain rfl := Option.some.inj hset
      exact stores_setField (f := .metadata) (by decide)
  | setCellOptions cellOptions =>
      obtain rfl := Option.some.inj hset
      exact stores_setField (f := .cellOptions) (by decide)
  | setNumCells numCells =>
      obtain rfl := Option.some.inj hset
      exact stores_untested (f := .numCells) (by decide) id
  | setReserved reserved =>
      obtain rfl := Option.some.inj hset
      exact stores_setField (f := .reserved) (by decide)
  | setOffset cellOffset =>
      obtain rfl := Option.some.inj hset
      exact stores_setField (f := .offset) (by decide)
  | setMaxNumCells maxNumCells =>
      obtain rfl := Option.some.inj hset
      exact stores_setField (f := .maxNumCells) (by decide)
  | setCellList l =>
      obtain rfl := Option.some.inj hset
      exact stores_setCellList l
  | setRelCellList l =>
      obtain rfl := Option.some.inj hset
      exact stores_setRelCellList l
  | setCandCellList l =>
      obtain rfl := Option.some.inj hset
      exact stores_setCandCellList l
  | setTotalNumCells totalNumCells =>
      obtain rfl := Option.some.inj hset
      exact stores_untested (f := .totalNumCells) (by decide) id
  | setPayload payload payloadLen =>
      obtain rfl := Option.some.inj hset
      exact stores_setField (f := .payload) (by decide)
  | _ => cases hset

/-- A step leaves everything as it is, or it sets a field and notes that. -/
theorem step_cases (h : step cmd m bodyLen c s = some s') :
    ∃ piece, c.sets = some piece ∧ HasField cmd m piece.field ∧
      (s' = s ∨ ∃ p, Placed m s.numCells bodyLen.toNat piece p piece.bytes ∧
        s' = ⟨Memory.store s.mem p piece.bytes, s.record.set piece⟩) := by
  unfold step at h
  split at h
  · cases h
  · rename_i piece hset
    split at h
    · rename_i hfield
      refine ⟨piece, hset, hfield, ?_⟩
      have hstores : Stores s.mem (c.perform m ⟨false, bodyLen⟩)
          (Placed m s.numCells bodyLen.toNat piece) := stores_perform hset
      dsimp only at h
      rcases hstores with ⟨hnone, hwrites⟩ | ⟨p, bs, hplaced, hsome, htarget⟩
      · rw [hnone, target_of_writes_nil hwrites] at h
        exact .inl (Option.some.inj h).symm
      · obtain rfl : bs = piece.bytes := hplaced.1
        rw [hsome, htarget] at h
        exact .inr ⟨p, hplaced, (Option.some.inj h).symm⟩
    · cases h

/-- Every byte that is set is one of the field. -/
theorem holds_of_sets (hset : c.sets = some piece) (hok : Undisturbed m s c)
    (hi : i < piece.bytes.length) : piece.field.Holds s.numCells (piece.start + i) := by
  cases c with
  | setMetadata metadata | setOffset cellOffset | setMaxNumCells maxNumCells
  | setTotalNumCells totalNumCells =>
      obtain rfl := Option.some.inj hset
      have hlt : i < 2 := hi
      exact (Nat.zero_add i).symm ▸ hlt
  | setCellOptions cellOptions | setNumCells numCells | setReserved reserved =>
      obtain rfl := Option.some.inj hset
      have hlt : i < 1 := hi
      exact (Nat.zero_add i).symm ▸ hlt
  | setCellList l | setCandCellList l | setPayload payload payloadLen =>
      obtain rfl := Option.some.inj hset
      trivial
  | setRelCellList l =>
      obtain rfl := Option.some.inj hset
      have hle := l.length_bytes_le
      have hlt : i < l.bytes.length := hi
      have hend : l.cellOffset.toNat + l.len.toNat ≤ s.numCells * 4 := hok
      change l.cellOffset.toNat + i < s.numCells * 4
      omega
  | _ => cases hset

/-! ## Fields do not meet -/

variable {p : ℕ}

theorem Record.set_eq_some {r : Record} {b : UInt8} (h : r.set piece f i = some b) :
    (f = piece.field ∧ ∃ k, i = piece.start + k ∧ piece.bytes[k]? = some b) ∨
      (¬ (f = piece.field ∧ piece.start ≤ i ∧ i < piece.start + piece.bytes.length) ∧
        r f i = some b) := by
  unfold Record.set at h
  split at h
  · rename_i hin
    exact .inl ⟨hin.1, i - piece.start, (Nat.add_sub_cancel' hin.2.1).symm, h⟩
  · rename_i hout
    exact .inr ⟨hout, h⟩

theorem pos_add (k : ℕ) : f.pos m n (i + k) = f.pos m n i + k := (Nat.add_assoc _ _ _).symm

/-- Two bytes at one position are the same byte of the same field. -/
theorem pos_inj {j : ℕ} (hf : HasField cmd m f) (hg : HasField cmd m g) (hi : f.Holds n i)
    (hj : g.Holds n j) (h : f.pos m n i = g.pos m n j) : f = g ∧ i = j := by
  obtain rfl : f = g := by
    have howner := owner_pos hg hj
    rw [← h, owner_pos hf hi] at howner
    exact Option.some.inj howner
  exact ⟨rfl, Nat.add_left_cancel h⟩

/-- Only the lists of a relocation depend on the number of cells. -/
theorem pos_eq_of_ne (hcand : f ≠ .candCellList) : f.pos m n i = f.pos m n' i := by
  rw [Field.pos, Field.pos, Field.shift_of_ne hcand, Field.shift_of_ne hcand]

theorem holds_iff_of_ne (hrel : f ≠ .relCellList) : f.Holds n i ↔ f.Holds n' i := by
  cases f with
  | relCellList => exact absurd rfl hrel
  | _ => exact Iff.rfl

theorem isRequest_relocate (h : HasField cmd m f)
    (hf : f = .relCellList ∨ f = .candCellList) : m.IsRequest [cmdRelocate] := by
  rcases hf with rfl | rfl
  · exact (of_request_field (n := 0) (i := 0) rfl h.1).1
  · exact (of_request_field (n := 0) (i := 0) rfl h.1).1

theorem hasField_numCells (cmd : UInt8) (n : ℕ) (h : m.IsRequest [cmdRelocate]) :
    HasField cmd m .numCells ∧ Field.numCells.pos m n 0 = 3 := by
  have hcode : m.code = cmdRelocate := List.mem_singleton.1 h.2
  have hoff : Field.numCells.offsetOf m = some 3 := if_pos ⟨h.1, by rw [hcode]; decide⟩
  refine ⟨⟨?_, .inl h.1⟩, pos_eq hoff⟩
  rw [hoff]
  exact nofun

/-- Other fields than `NumCells` leave it alone. -/
theorem store_numCells (hreq : m.IsRequest [cmdRelocate]) (hfield : HasField cmd m piece.field)
    (hne : piece.field ≠ .numCells)
    (hholds : ∀ i < piece.bytes.length, piece.field.Holds s.numCells (piece.start + i)) :
    Memory.store s.mem (piece.field.pos m s.numCells piece.start) piece.bytes 3 = s.mem 3 := by
  refine Memory.store_of_outside ?_
  by_contra hin
  obtain ⟨hnum, hthree⟩ := hasField_numCells cmd s.numCells hreq
  obtain ⟨k, hk⟩ := Nat.exists_eq_add_of_le
    (Nat.le_of_not_lt fun h => hin (.inl h) : piece.field.pos m s.numCells piece.start ≤ 3)
  have hlt : k < piece.bytes.length := by omega
  have hpos : piece.field.pos m s.numCells (piece.start + k) =
      Field.numCells.pos m s.numCells 0 := by
    rw [pos_add, hthree]
    exact hk.symm
  have hzero : Field.numCells.Holds s.numCells 0 := Nat.one_pos
  exact hne (pos_inj hfield hnum (hholds k hlt) hzero hpos).1

/-- What is recorded after a piece is set is in the memory, with the number of cells from before. -/
theorem Kept.store {L : ℕ} (hk : Kept cmd m L s) (hfield : HasField cmd m piece.field)
    (hholds : ∀ i < piece.bytes.length, piece.field.Holds s.numCells (piece.start + i))
    (hplaced : Placed m s.numCells L piece p piece.bytes) {b : UInt8}
    (hb : s.record.set piece f i = some b) :
    HasField cmd m f ∧ f.Holds s.numCells i ∧
      Memory.store s.mem p piece.bytes (f.pos m s.numCells i) = b ∧
      (f.Open → f.pos m s.numCells i < L) := by
  obtain ⟨_, rfl, hopen⟩ := hplaced
  rcases Record.set_eq_some hb with ⟨rfl, k, rfl, hbyte⟩ | ⟨hout, hold⟩
  · obtain ⟨hlt, hget⟩ := List.getElem?_eq_some_iff.1 hbyte
    refine ⟨hfield, hholds k hlt, ?_, fun h => ?_⟩
    · rw [pos_add, Memory.store_add hlt, hget]
    · have hend := hopen h
      rw [pos_add]
      omega
  · obtain ⟨hf, hin, hmem, hlt⟩ := hk f i b hold
    refine ⟨hf, hin, ?_, hlt⟩
    rw [Memory.store_of_outside, hmem]
    -- Otherwise it is a byte of the piece.
    by_contra hmeet
    obtain ⟨k, hpos⟩ := Nat.exists_eq_add_of_le
      (Nat.le_of_not_lt fun h => hmeet (.inl h) :
        piece.field.pos m s.numCells piece.start ≤ f.pos m s.numCells i)
    have hklt : k < piece.bytes.length := by omega
    rw [← pos_add] at hpos
    obtain ⟨rfl, rfl⟩ := pos_inj hf hfield hin (hholds k hklt) hpos
    exact hout ⟨rfl, by omega, by omega⟩

theorem sets_numCells (hset : c.sets = some piece) (hf : piece.field = .numCells) :
    ∃ v, c = .setNumCells v ∧ piece = ⟨.numCells, 0, Bytes.ofNat 1 v.toNat⟩ := by
  cases c with
  | setNumCells v => exact ⟨v, rfl, (Option.some.inj hset).symm⟩
  | setMetadata v | setCellOptions v | setReserved v | setOffset v | setMaxNumCells v
  | setCellList v | setRelCellList v | setCandCellList v | setTotalNumCells v | setPayload v w =>
      obtain rfl := Option.some.inj hset
      cases hf
  | _ => cases hset

/-- With cells in the lists of a relocation the number of cells stays. -/
theorem store_numCells_of_listed (hset : c.sets = some piece) (hok : Undisturbed m s c)
    (hfield : HasField cmd m piece.field) (hplaced : Placed m s.numCells n piece p piece.bytes)
    (hf : HasField cmd m f) (hlists : f = .relCellList ∨ f = .candCellList) {b : UInt8}
    (hb : s.record.set piece f i = some b) :
    Memory.store s.mem p piece.bytes 3 = s.mem 3 := by
  have hreq := isRequest_relocate hf hlists
  obtain ⟨_, rfl, _⟩ := hplaced
  by_cases hnum : piece.field = .numCells
  · obtain ⟨v, rfl, rfl⟩ := sets_numCells hset hnum
    have hthree : Field.numCells.pos m s.numCells 0 = 3 :=
      (hasField_numCells cmd s.numCells hreq).2
    dsimp only
    rw [hthree]
    rcases hok hreq with rfl | hnone
    · rw [Bytes.ofNat, Memory.store_self, UInt8.ofNat_toNat]
    · rcases Record.set_eq_some hb with ⟨hsame, _⟩ | ⟨_, hold⟩
      · rcases hlists with rfl | rfl <;> cases hsame
      · rcases hlists with rfl | rfl
        · rw [(hnone i).1] at hold
          cases hold
        · rw [(hnone i).2] at hold
          cases hold
  · exact store_numCells hreq hfield hnum fun i hi => holds_of_sets hset hok hi

/-- A step that is not in the way of another field keeps what is recorded. -/
theorem kept_step (hk : Kept cmd m bodyLen.toNat s) (hok : Undisturbed m s c)
    (h : step cmd m bodyLen c s = some s') : Kept cmd m bodyLen.toNat s' := by
  obtain ⟨piece, hset, hfield, rfl | ⟨p, hplaced, rfl⟩⟩ := step_cases h
  · exact hk
  · intro f i b hb
    obtain ⟨hf, hin, hmem, hlt⟩ :=
      hk.store hfield (fun i hi => holds_of_sets hset hok hi) hplaced hb
    by_cases hlists : f = .relCellList ∨ f = .candCellList
    · have hthree : Build.numCells ⟨Memory.store s.mem p piece.bytes, s.record.set piece⟩ =
          s.numCells :=
        congrArg UInt8.toNat (store_numCells_of_listed hset hok hfield hplaced hf hlists hb)
      rw [hthree]
      exact ⟨hf, hin, hmem, hlt⟩
    · rw [not_or] at hlists
      have hpos : f.pos m s.numCells i = f.pos m
          (Build.numCells ⟨Memory.store s.mem p piece.bytes, s.record.set piece⟩) i :=
        pos_eq_of_ne hlists.2
      rw [hpos] at hmem hlt
      exact ⟨hf, (holds_iff_of_ne hlists.1).1 hin, hmem, hlt⟩

theorem kept_empty (mem : ℕ → UInt8) (L : ℕ) : Kept cmd m L ⟨mem, Record.empty⟩ := nofun

/-- A run of setters that are not in each other's way keeps what is recorded. -/
theorem kept_run {cs : List Call} {mem : ℕ → UInt8}
    (hok : Transition.Meets (step cmd m bodyLen) (Undisturbed m) cs ⟨mem, Record.empty⟩)
    (hrun : Transition.run (step cmd m bodyLen) cs ⟨mem, Record.empty⟩ = some s) :
    Kept cmd m bodyLen.toNat s :=
  Transition.run_invariant (fun _ _ _ => kept_step) (kept_empty mem _) hok hrun

end Den2ne.SixpPkt

import Den2ne.Reads.Bounded
import Den2ne.SixpPkt.Access

/-!
# Bounds of the accessors

Every call of a setter or getter of a 6P message, and when it stays within the body and the output
buffer. Four of them do not always: two setters and a getter do not test `body_len`, and
`sixp_pkt_get_payload` copies as many bytes as the output buffer has.
-/

namespace Den2ne.SixpPkt

open Reads Reads.Transfer

/-- A call of a setter or a getter. -/
inductive Call
  | setMetadata (metadata : UInt16)
  | getMetadata (outIsNull : Bool)
  | setCellOptions (cellOptions : UInt8)
  | getCellOptions (outIsNull : Bool)
  | setNumCells (numCells : UInt8)
  | getNumCells (outIsNull : Bool)
  | setReserved (reserved : UInt8)
  | getReserved (outIsNull : Bool)
  | setOffset (cellOffset : UInt16)
  | getOffset (outIsNull : Bool)
  | setMaxNumCells (maxNumCells : UInt16)
  | getMaxNumCells (outIsNull : Bool)
  | setCellList (l : CellList)
  | getCellList (outIsNull : Bool)
  | setRelCellList (l : CellList)
  | getRelCellList (outIsNull : Bool)
  | setCandCellList (l : CellList)
  | getCandCellList (outIsNull : Bool)
  | setTotalNumCells (totalNumCells : UInt16)
  | getTotalNumCells (outIsNull : Bool)
  | setPayload (payload : ℕ → UInt8) (payloadLen : UInt16)
  | getPayload (bufIsNull : Bool) (bufLen : UInt16)

/-- A call the result of which is left out. -/
def unit {γ : Type} (t : Transfer UInt8 γ) : Transfer UInt8 Unit := t >>= fun _ => pure ()

/-- What the call does. -/
def Call.perform (m : Msg) (body : Body) : Call → Transfer UInt8 Unit
  | setMetadata metadata => sixpPktSetMetadata m metadata body
  | getMetadata outIsNull => unit (sixpPktGetMetadata m outIsNull body)
  | setCellOptions cellOptions => sixpPktSetCellOptions m cellOptions body
  | getCellOptions outIsNull => unit (sixpPktGetCellOptions m outIsNull body)
  | setNumCells numCells => sixpPktSetNumCells m numCells body
  | getNumCells outIsNull => unit (sixpPktGetNumCells m outIsNull body)
  | setReserved reserved => sixpPktSetReserved m reserved body
  | getReserved outIsNull => unit (sixpPktGetReserved m outIsNull body)
  | setOffset cellOffset => sixpPktSetOffset m cellOffset body
  | getOffset outIsNull => unit (sixpPktGetOffset m outIsNull body)
  | setMaxNumCells maxNumCells => sixpPktSetMaxNumCells m maxNumCells body
  | getMaxNumCells outIsNull => unit (sixpPktGetMaxNumCells m outIsNull body)
  | setCellList l => sixpPktSetCellList m l body
  | getCellList outIsNull => unit (sixpPktGetCellList m outIsNull body)
  | setRelCellList l => sixpPktSetRelCellList m l body
  | getRelCellList outIsNull => unit (sixpPktGetRelCellList m outIsNull body)
  | setCandCellList l => sixpPktSetCandCellList m l body
  | getCandCellList outIsNull => unit (sixpPktGetCandCellList m outIsNull body)
  | setTotalNumCells totalNumCells => sixpPktSetTotalNumCells m totalNumCells body
  | getTotalNumCells outIsNull => unit (sixpPktGetTotalNumCells m outIsNull body)
  | setPayload payload payloadLen => sixpPktSetPayload m payload payloadLen body
  | getPayload bufIsNull bufLen => sixpPktGetPayload m bufIsNull bufLen body

/-- The length of what is written: the buffer of `sixp_pkt_get_payload`, else the body. -/
def Call.writable (body : Body) : Call → ℕ
  | getPayload _ bufLen => bufLen.toNat
  | _ => body.bodyLen.toNat

/-- What a call does not test itself. -/
def Call.Untested (m : Msg) (body : Body) : Call → Prop
  | setNumCells _ => body.isNull = false →
      ∀ offset, getNumCellsOffset m = some offset → offset + 1 ≤ body.bodyLen.toNat
  | getReserved outIsNull => outIsNull = false → body.isNull = false →
      ∀ offset, getReservedOffset m = some offset → offset + 1 ≤ body.bodyLen.toNat
  | setTotalNumCells _ => body.isNull = false →
      ∀ offset, getTotalNumCellsOffset m = some offset → offset + 2 ≤ body.bodyLen.toNat
  | getPayload bufIsNull bufLen => bufIsNull = false → body.isNull = false →
      ∀ offset, getPayloadOffset m = some offset →
        bufLen = 0 ∨ offset + bufLen.toNat ≤ body.bodyLen.toNat
  | _ => True

variable {γ : Type} {data : ℕ → UInt8} {n k : ℕ} {m : Msg} {body : Body}

theorem quiet_needOffset (offset : Option ℕ) : Quiet data n (needOffset offset) := by
  cases offset with
  | none => exact ⟨readsBelow_fail, rfl⟩
  | some offset => exact ⟨readsBelow_pure offset, rfl⟩

theorem bounded_needOffset_bind {offset : Option ℕ} {f : ℕ → Transfer UInt8 γ} :
    Bounded data n k (needOffset offset >>= f) ↔
      ∀ o, offset = some o → Bounded data n k (f o) := by
  rw [(quiet_needOffset offset).bounded_bind]
  cases offset with
  | none => exact iff_of_true nofun nofun
  | some offset => rfl

theorem bounded_setField (offset : Option ℕ) (bytes : List UInt8) (body : Body) :
    Bounded data n body.bodyLen.toNat (setField offset bytes body) := by
  unfold setField
  rw [bounded_require_bind]
  intro _
  rw [bounded_needOffset_bind]
  intro o _
  rw [bounded_require_bind]
  exact fun hfit => bounded_puts.2 (.inr hfit)

theorem bounded_unit {t : Transfer UInt8 γ} (h : Quiet data n t) :
    Bounded data n k (unit t) :=
  h.bounded_bind.2 fun _ _ => bounded_pure ()

theorem run_needOffset {offset : Option ℕ} {o : ℕ} :
    (needOffset offset).run data = some o ↔ offset = some o := by
  cases offset with
  | none => exact iff_of_false nofun nofun
  | some offset => rfl

theorem quiet_getField (offset : Option ℕ) (size : ℕ) (outIsNull : Bool) (body : Body) :
    Quiet data body.bodyLen.toNat (getField offset size outIsNull body) := by
  refine (quiet_require _).bind fun _ _ => (quiet_needOffset offset).bind fun o _ => ?_
  refine (quiet_require _).bind fun _ hfit => ?_
  exact (quiet_gets (run_require_eq_some.1 hfit)).bind fun bytes _ => quiet_pure _

theorem quiet_getNumCells (m : Msg) (outIsNull : Bool) (body : Body) :
    Quiet data body.bodyLen.toNat (sixpPktGetNumCells m outIsNull body) :=
  quiet_getField _ _ _ body

theorem CellList.length_bytes_le (l : CellList) : l.bytes.length ≤ l.len.toNat := by
  unfold CellList.bytes
  cases l.cells with
  | none => exact Nat.zero_le _
  | some cells => exact Nat.le_of_eq (Memory.length_load cells 0 _)

/-- A list is written where it has room. -/
theorem bounded_puts_list {offset : ℕ} {l : CellList} (h : offset + l.len.toNat ≤ k) :
    Bounded data n k (puts offset l.bytes) := by
  have hle := l.length_bytes_le
  exact bounded_puts.2 (.inr (by omega))

theorem bounded_setCellList (m : Msg) (l : CellList) (body : Body) :
    Bounded data body.bodyLen.toNat body.bodyLen.toNat (sixpPktSetCellList m l body) := by
  unfold sixpPktSetCellList
  rw [bounded_require_bind]
  intro _
  rw [bounded_needOffset_bind]
  intro o _
  rw [bounded_require_bind]
  intro hfit
  rw [bounded_require_bind]
  exact fun _ => bounded_puts_list hfit

theorem bounded_setRelCellList (m : Msg) (l : CellList) (body : Body) :
    Bounded data body.bodyLen.toNat body.bodyLen.toNat (sixpPktSetRelCellList m l body) := by
  unfold sixpPktSetRelCellList
  rw [bounded_require_bind]
  intro _
  rw [(quiet_getNumCells m false body).bounded_bind]
  intro numCells _
  rw [bounded_needOffset_bind]
  intro o _
  rw [bounded_require_bind]
  intro hfit
  rw [bounded_require_bind]
  intro _
  rw [bounded_require_bind]
  exact fun _ => bounded_puts_list hfit

theorem bounded_setCandCellList (m : Msg) (l : CellList) (body : Body) :
    Bounded data body.bodyLen.toNat body.bodyLen.toNat (sixpPktSetCandCellList m l body) := by
  unfold sixpPktSetCandCellList
  rw [bounded_require_bind]
  intro _
  rw [(quiet_getNumCells m false body).bounded_bind]
  intro numCells _
  rw [bounded_needOffset_bind]
  intro o _
  rw [bounded_require_bind]
  intro hfit
  rw [bounded_require_bind]
  exact fun _ => bounded_puts_list hfit

theorem quiet_getCellList (m : Msg) (outIsNull : Bool) (body : Body) :
    Quiet data n (sixpPktGetCellList m outIsNull body) := by
  refine (quiet_require _).bind fun _ _ => (quiet_needOffset _).bind fun o _ => ?_
  exact (quiet_require _).bind fun _ _ => (quiet_require _).bind fun _ _ => quiet_pure _

theorem quiet_getRelCellList (m : Msg) (outIsNull : Bool) (body : Body) :
    Quiet data body.bodyLen.toNat (sixpPktGetRelCellList m outIsNull body) := by
  refine (quiet_require _).bind fun _ _ => ?_
  refine (quiet_getNumCells m false body).bind fun numCells _ => ?_
  refine (quiet_needOffset _).bind fun o _ => ?_
  exact (quiet_require _).bind fun _ _ => (quiet_require _).bind fun _ _ => quiet_pure _

theorem quiet_getCandCellList (m : Msg) (outIsNull : Bool) (body : Body) :
    Quiet data body.bodyLen.toNat (sixpPktGetCandCellList m outIsNull body) := by
  refine (quiet_require _).bind fun _ _ => ?_
  refine (quiet_getNumCells m false body).bind fun numCells _ => ?_
  refine (quiet_needOffset _).bind fun o _ => ?_
  exact (quiet_require _).bind fun _ _ => (quiet_require _).bind fun _ _ => quiet_pure _

/-! ## The accessors that do not test -/

/-- A setter without a test stays in the body if there is room for the field. -/
theorem bounded_untested_iff {offset : Option ℕ} {bytes : List UInt8} (hne : bytes ≠ []) :
    Bounded data n k (require (body.isNull = false) >>= fun _ => needOffset offset >>= fun o =>
        puts o bytes) ↔
      (body.isNull = false → ∀ o, offset = some o → o + bytes.length ≤ k) := by
  rw [bounded_require_bind, bounded_needOffset_bind]
  refine forall_congr' fun _ => forall_congr' fun o => forall_congr' fun _ => ?_
  rw [bounded_puts, or_iff_right hne]

theorem bounded_getReserved_iff {outIsNull : Bool} :
    Bounded data body.bodyLen.toNat k (unit (sixpPktGetReserved m outIsNull body)) ↔
      (outIsNull = false → body.isNull = false →
        ∀ offset, getReservedOffset m = some offset → offset + 1 ≤ body.bodyLen.toNat) := by
  constructor
  · intro h hout hbody o ho
    have hread := h.reads
    unfold unit at hread
    rw [readsBelow_bind] at hread
    have hread := hread.1
    unfold sixpPktGetReserved at hread
    rw [readsBelow_bind] at hread
    have hread := hread.2 () (run_require_eq_some.2 ⟨hout, hbody⟩)
    rw [readsBelow_bind] at hread
    have hread := hread.2 o (run_needOffset.2 ho)
    rw [readsBelow_bind] at hread
    have hmem : o ∈ (gets o 1 : Transfer UInt8 (List UInt8)).reads data := List.mem_cons_self
    exact hread.1 o hmem
  · intro h
    refine bounded_unit ?_
    refine (quiet_require _).bind fun _ hargs => (quiet_needOffset _).bind fun o ho => ?_
    have hargs := run_require_eq_some.1 hargs
    have hfit := h hargs.1 hargs.2 o (run_needOffset.1 ho)
    exact (quiet_gets hfit).bind fun bytes _ => quiet_pure _

theorem bounded_getPayload_iff {bufIsNull : Bool} {bufLen : UInt16} :
    Bounded data body.bodyLen.toNat bufLen.toNat (sixpPktGetPayload m bufIsNull bufLen body) ↔
      (bufIsNull = false → body.isNull = false →
        ∀ offset, getPayloadOffset m = some offset →
          bufLen = 0 ∨ offset + bufLen.toNat ≤ body.bodyLen.toNat) := by
  have hzero : bufLen = 0 ↔ bufLen.toNat = 0 :=
    ⟨fun h => by rw [h]; rfl, fun h => UInt16.toNat_inj.1 h⟩
  unfold sixpPktGetPayload
  rw [bounded_require_bind, bounded_needOffset_bind, and_imp]
  refine forall_congr' fun _ => forall_congr' fun _ => forall_congr' fun o =>
    forall_congr' fun _ => ?_
  have hroom : 0 + bufLen.toNat ≤ bufLen.toNat := Nat.le_of_eq (Nat.zero_add _)
  rw [bounded_require_bind, bounded_copy hroom, hzero]
  omega

/-- A call stays within the body and the output buffer, and changes nothing if it fails, exactly if
what it does not test holds. -/
theorem accessor_bounded_iff (data : ℕ → UInt8) (m : Msg) (body : Body) (c : Call) :
    Bounded data body.bodyLen.toNat (c.writable body) (c.perform m body) ↔ c.Untested m body := by
  cases c with
  | setMetadata metadata => exact iff_of_true (bounded_setField _ _ body) trivial
  | getMetadata outIsNull => exact iff_of_true (bounded_unit (quiet_getField _ _ _ body)) trivial
  | setCellOptions cellOptions => exact iff_of_true (bounded_setField _ _ body) trivial
  | getCellOptions outIsNull => exact iff_of_true (bounded_unit (quiet_getField _ _ _ body)) trivial
  | setNumCells numCells => exact bounded_untested_iff (List.cons_ne_nil _ _)
  | getNumCells outIsNull => exact iff_of_true (bounded_unit (quiet_getField _ _ _ body)) trivial
  | setReserved reserved => exact iff_of_true (bounded_setField _ _ body) trivial
  | getReserved outIsNull => exact bounded_getReserved_iff
  | setOffset cellOffset => exact iff_of_true (bounded_setField _ _ body) trivial
  | getOffset outIsNull => exact iff_of_true (bounded_unit (quiet_getField _ _ _ body)) trivial
  | setMaxNumCells maxNumCells => exact iff_of_true (bounded_setField _ _ body) trivial
  | getMaxNumCells outIsNull => exact iff_of_true (bounded_unit (quiet_getField _ _ _ body)) trivial
  | setCellList l => exact iff_of_true (bounded_setCellList m l body) trivial
  | getCellList outIsNull =>
      exact iff_of_true (bounded_unit (quiet_getCellList m outIsNull body)) trivial
  | setRelCellList l => exact iff_of_true (bounded_setRelCellList m l body) trivial
  | getRelCellList outIsNull =>
      exact iff_of_true (bounded_unit (quiet_getRelCellList m outIsNull body)) trivial
  | setCandCellList l => exact iff_of_true (bounded_setCandCellList m l body) trivial
  | getCandCellList outIsNull =>
      exact iff_of_true (bounded_unit (quiet_getCandCellList m outIsNull body)) trivial
  | setTotalNumCells totalNumCells => exact bounded_untested_iff (List.cons_ne_nil _ _)
  | getTotalNumCells outIsNull =>
      exact iff_of_true (bounded_unit (quiet_getField _ _ _ body)) trivial
  | setPayload payload payloadLen => exact iff_of_true (bounded_setField _ _ body) trivial
  | getPayload bufIsNull bufLen => exact bounded_getPayload_iff

/-- `NumCells` is written behind a body of two bytes. -/
theorem not_accessor_bounded : ¬ Bounded (fun _ => 0) 2 2
    ((Call.setNumCells 1).perform ⟨.request, cmdAdd⟩ ⟨false, 2⟩) := by
  intro h
  have hwrite : (3, 1) ∈ ((Call.setNumCells 1).perform ⟨.request, cmdAdd⟩ ⟨false, 2⟩).writes
      (fun _ => 0) := List.mem_cons_self
  exact absurd (h.writes _ hwrite) (by decide)

end Den2ne.SixpPkt

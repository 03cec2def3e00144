import Den2ne.SixpPkt.Packet
import Den2ne.SixpPkt.Record

/-!
# Round trip of 6P messages

A message is made by a run of setters, put into a packet and parsed, and then its getters return
what its fields were last set to. This is so if no setter is in another one's way, and if the header
and the body fit the packet buffer together: `sixp_pkt_create` compares the length of the body alone
with `PACKETBUF_SIZE`, before it allocates the header.
-/

namespace Den2ne.SixpPkt

open Reads Reads.Transfer

/-! ## What getters return -/

/-- The getter returns the number that the bytes of the field were set to. -/
def GetsNumber (data : ℕ → UInt8) (size : ℕ) (set : ℕ → Option UInt8) (get : Transfer UInt8 ℕ) :
    Prop :=
  ∀ v < 256 ^ size, (∀ i < size, set i = (Bytes.ofNat size v)[i]?) → get.run data = some v

/-- The getter returns cells with the bytes that the field was set to. -/
def GetsCells (data : ℕ → UInt8) (set : ℕ → Option UInt8) (get : Transfer UInt8 Span) : Prop :=
  ∃ cells, get.run data = some cells ∧
    ∀ i b, set i = some b → i < cells.len ∧ data (cells.start + i) = b

/-- The getter fills a buffer that is long enough with the bytes that the field was set to. -/
def GetsPayload (m : Msg) (data : ℕ → UInt8) (body : Body) (set : ℕ → Option UInt8) : Prop :=
  ∀ bufLen buf, (∀ o, getPayloadOffset m = some o → body.bodyLen.toNat ≤ o + bufLen.toNat) →
    (sixpPktGetPayload m false bufLen body).run data = some () ∧
      ∀ i b, set i = some b → (sixpPktGetPayload m false bufLen body).target data buf i = b

/-- The getter of the field returns what the field was set to. -/
def Returned (m : Msg) (data : ℕ → UInt8) (body : Body) (r : Record) : Field → Prop
  | .metadata => GetsNumber data 2 (r .metadata) (sixpPktGetMetadata m false body)
  | .cellOptions => GetsNumber data 1 (r .cellOptions) (sixpPktGetCellOptions m false body)
  | .numCells => GetsNumber data 1 (r .numCells) (sixpPktGetNumCells m false body)
  | .reserved => GetsNumber data 1 (r .reserved) (sixpPktGetReserved m false body)
  | .offset => GetsNumber data 2 (r .offset) (sixpPktGetOffset m false body)
  | .maxNumCells => GetsNumber data 2 (r .maxNumCells) (sixpPktGetMaxNumCells m false body)
  | .cellList => GetsCells data (r .cellList) (sixpPktGetCellList m false body)
  | .relCellList => GetsCells data (r .relCellList) (sixpPktGetRelCellList m false body)
  | .candCellList => GetsCells data (r .candCellList) (sixpPktGetCandCellList m false body)
  | .totalNumCells => GetsNumber data 2 (r .totalNumCells) (sixpPktGetTotalNumCells m false body)
  | .payload => GetsPayload m data body (r .payload)

/-- There is room for the field in a body of `len` bytes. -/
def Field.Fits (n len : ℕ) : Field → Prop
  | cellList => len % 4 = 0
  | relCellList => 4 + n * 4 ≤ len
  | totalNumCells => 2 ≤ len
  | _ => True

/-- The body is one of a message of the command `cmd`. -/
structure WellFormed (cmd : UInt8) (m : Msg) (mem : ℕ → UInt8) (len : ℕ) : Prop where
  lenOk : LenOk m len
  fits : ∀ f, HasField cmd m f → f.Fits (mem 3).toNat len

variable {cmd : UInt8} {m : Msg} {f : Field} {i n len o : ℕ} {bodyLen : UInt16} {s : Build}
  {data : ℕ → UInt8}

theorem lenOk_request (hreq : m.type = .request) (h : LenOk m len) :
    (m.code ∈ [cmdAdd, cmdDelete, cmdRelocate] ∧ 4 ≤ len ∧ len % 4 = 0) ∨
      (m.code = cmdCount ∧ len = 3) ∨ (m.code = cmdList ∧ len = 8) ∨
      (m.code = cmdSignal ∧ 2 ≤ len) ∨ (m.code = cmdClear ∧ len = 2) := by
  unfold LenOk at h
  rw [hreq] at h
  dsimp only at h
  split at h
  · rename_i hcode
    refine .inl ⟨?_, h⟩
    simpa only [List.mem_cons, List.not_mem_nil, or_false] using hcode
  · split at h
    · exact .inr (.inl ⟨‹_›, h⟩)
    · split at h
      · exact .inr (.inr (.inl ⟨‹_›, h⟩))
      · split at h
        · exact .inr (.inr (.inr (.inl ⟨‹_›, h⟩)))
        · split at h
          · exact .inr (.inr (.inr (.inr ⟨‹_›, h⟩)))
          · exact h.elim

theorem two_le_of_request (hreq : m.type = .request) (h : LenOk m len) : 2 ≤ len := by
  rcases lenOk_request hreq h with h | h | h | h | h <;> omega

theorem three_le_of_options (hm : m.IsRequest [cmdAdd, cmdDelete, cmdRelocate, cmdCount, cmdList])
    (h : LenOk m len) : 3 ≤ len := by
  rcases lenOk_request hm.1 h with h | h | h | h | h
  · omega
  · omega
  · omega
  · exact absurd h.1 (hm.ne (by decide))
  · exact absurd h.1 (hm.ne (by decide))

theorem four_le_of_cells (hm : m.IsRequest [cmdAdd, cmdDelete, cmdRelocate])
    (h : LenOk m len) : 4 ≤ len ∧ len % 4 = 0 := by
  rcases lenOk_request hm.1 h with h | h | h | h | h
  · exact h.2
  · exact absurd h.1 (hm.ne (by decide))
  · exact absurd h.1 (hm.ne (by decide))
  · exact absurd h.1 (hm.ne (by decide))
  · exact absurd h.1 (hm.ne (by decide))

theorem eight_of_list (hm : m.IsRequest [cmdList]) (h : LenOk m len) : len = 8 := by
  rcases lenOk_request hm.1 h with h | h | h | h | h
  · have hcode : m.code = cmdList := List.mem_singleton.1 hm.2
    rw [hcode] at h
    exact absurd h.1 (by decide)
  · exact absurd h.1 (hm.ne (by decide))
  · exact h.2
  · exact absurd h.1 (hm.ne (by decide))
  · exact absurd h.1 (hm.ne (by decide))

/-! ## Numbers -/

theorem run_getField_of_fits (hoff : f.offsetOf m = some o) {size : ℕ}
    (hfit : o + size ≤ bodyLen.toNat) :
    (getField (f.offsetOf m) size false ⟨false, bodyLen⟩).run data =
      some (Bytes.toNat (Memory.load data o size)) := by
  unfold getField
  rw [run_bind, run_require, if_pos ⟨rfl, rfl⟩]
  change (needOffset (f.offsetOf m) >>= _).run data = _
  rw [run_bind, hoff]
  change (require (o + size ≤ bodyLen.toNat) >>= _).run data = _
  rw [run_bind, run_require, if_pos hfit]
  change (gets o size >>= _).run data = _
  rw [run_bind, run_gets]
  rfl

/-- The bytes at a field are those of the number it was set to. -/
theorem load_eq_ofNat (hk : Kept cmd m bodyLen.toNat s)
    (hdata : ∀ i < bodyLen.toNat, data i = s.mem i) (hf : f ≠ .candCellList)
    (hoff : f.offsetOf m = some o) {size v : ℕ} (hfit : o + size ≤ bodyLen.toNat)
    (hset : ∀ i < size, s.record f i = (Bytes.ofNat size v)[i]?) :
    Memory.load data o size = Bytes.ofNat size v := by
  refine List.ext_getElem? fun i => ?_
  by_cases hi : i < size
  · have hlt : i < (Bytes.ofNat size v).length := by rwa [Bytes.length_ofNat]
    have hrec : s.record f i = some (Bytes.ofNat size v)[i] :=
      (hset i hi).trans (List.getElem?_eq_getElem hlt)
    obtain ⟨_, _, hmem, _⟩ := hk f i _ hrec
    rw [pos_eq hoff, Field.shift_of_ne hf, Nat.add_zero] at hmem
    rw [Memory.getElem?_load hi, List.getElem?_eq_getElem hlt, hdata _ (by omega), hmem]
  · have hle := Nat.le_of_not_lt hi
    rw [List.getElem?_eq_none, List.getElem?_eq_none]
    · rwa [Bytes.length_ofNat]
    · rwa [Memory.length_load]

theorem getsNumber_getField (hk : Kept cmd m bodyLen.toNat s)
    (hdata : ∀ i < bodyLen.toNat, data i = s.mem i) (hf : f ≠ .candCellList)
    (hoff : f.offsetOf m = some o) {size : ℕ} (hfit : o + size ≤ bodyLen.toNat) :
    GetsNumber data size (s.record f) (getField (f.offsetOf m) size false ⟨false, bodyLen⟩) := by
  intro v hv hset
  rw [run_getField_of_fits hoff hfit, load_eq_ofNat hk hdata hf hoff hfit hset,
    Bytes.toNat_ofNat_of_lt hv]

theorem getsNumber_getReserved (hk : Kept cmd m bodyLen.toNat s)
    (hdata : ∀ i < bodyLen.toNat, data i = s.mem i)
    (hoff : Field.reserved.offsetOf m = some o) (hfit : o + 1 ≤ bodyLen.toNat) :
    GetsNumber data 1 (s.record .reserved) (sixpPktGetReserved m false ⟨false, bodyLen⟩) := by
  intro v hv hset
  have hload := load_eq_ofNat hk hdata (by decide) hoff hfit hset
  have hoff' : getReservedOffset m = some o := hoff
  unfold sixpPktGetReserved
  rw [run_bind, run_require, if_pos ⟨rfl, rfl⟩]
  change (needOffset (getReservedOffset m) >>= _).run data = _
  rw [run_bind, hoff']
  change (gets o 1 >>= _).run data = _
  rw [run_bind, run_gets, hload]
  exact congrArg some (Bytes.toNat_ofNat_of_lt hv)

/-! ## Cells and the payload -/

theorem getsCells_of_run (hk : Kept cmd m bodyLen.toNat s)
    (hdata : ∀ i < bodyLen.toNat, data i = s.mem i) (hopen : f.Open)
    (hoff : f.offsetOf m = some o) {get : Transfer UInt8 Span}
    (hrun : get.run data = some ⟨o + f.shift s.numCells, n⟩)
    (hlen : ∀ i, f.Holds s.numCells i → o + f.shift s.numCells + i < bodyLen.toNat → i < n) :
    GetsCells data (s.record f) get := by
  refine ⟨_, hrun, fun i b hb => ?_⟩
  obtain ⟨_, hin, hmem, hlt⟩ := hk f i b hb
  have hlt := hlt hopen
  rw [pos_eq hoff] at hmem hlt
  exact ⟨hlen i hin hlt, (hdata _ hlt).trans hmem⟩

theorem run_getCellList (hoff : getCellListOffset m = some o) (hle : o ≤ bodyLen.toNat)
    (hmod : (bodyLen.toNat - o) % 4 = 0) :
    (sixpPktGetCellList m false ⟨false, bodyLen⟩).run data = some ⟨o, bodyLen.toNat - o⟩ := by
  unfold sixpPktGetCellList
  rw [run_bind, run_require, if_pos ⟨rfl, rfl⟩]
  change (needOffset (getCellListOffset m) >>= _).run data = _
  rw [run_bind, hoff]
  change (require (o ≤ bodyLen.toNat) >>= _).run data = _
  rw [run_bind, run_require, if_pos hle]
  change (require ((bodyLen.toNat - o) % 4 = 0) >>= _).run data = _
  rw [run_bind, run_require, if_pos hmod]
  rfl

theorem offsetOf_numCells (hm : m.IsRequest [cmdRelocate]) :
    Field.numCells.offsetOf m = some 3 := by
  have hcode : m.code = cmdRelocate := List.mem_singleton.1 hm.2
  exact if_pos ⟨hm.1, by rw [hcode]; decide⟩

theorem run_getNumCells_of_fits (hm : m.IsRequest [cmdRelocate]) (hlen : 4 ≤ bodyLen.toNat)
    (hdata : ∀ i < bodyLen.toNat, data i = s.mem i) :
    (sixpPktGetNumCells m false ⟨false, bodyLen⟩).run data = some s.numCells := by
  have hrun : (sixpPktGetNumCells m false ⟨false, bodyLen⟩).run data =
      some (Bytes.toNat (Memory.load data 3 1)) :=
    run_getField_of_fits (offsetOf_numCells hm) hlen
  rw [hrun, Build.numCells, ← hdata 3 hlen]
  rfl

theorem run_getRelCellList (hm : m.IsRequest [cmdRelocate])
    (hdata : ∀ i < bodyLen.toNat, data i = s.mem i) (hfit : 4 + s.numCells * 4 ≤ bodyLen.toNat)
    (hmod : bodyLen.toNat % 4 = 0) :
    (sixpPktGetRelCellList m false ⟨false, bodyLen⟩).run data = some ⟨4, s.numCells * 4⟩ := by
  have hoff : getRelCellListOffset m = some 4 := if_pos hm
  have hnum := run_getNumCells_of_fits hm (by omega) hdata
  unfold sixpPktGetRelCellList
  rw [run_bind, run_require, if_pos ⟨rfl, rfl⟩]
  change (sixpPktGetNumCells m false ⟨false, bodyLen⟩ >>= _).run data = _
  rw [run_bind, hnum]
  change (needOffset (getRelCellListOffset m) >>= _).run data = _
  rw [run_bind, hoff]
  change (require (4 + s.numCells * 4 ≤ bodyLen.toNat) >>= _).run data = _
  rw [run_bind, run_require, if_pos hfit]
  change (require ((bodyLen.toNat - 4) % 4 = 0) >>= _).run data = _
  rw [run_bind, run_require, if_pos (by omega)]
  rfl

theorem run_getCandCellList (hm : m.IsRequest [cmdRelocate])
    (hdata : ∀ i < bodyLen.toNat, data i = s.mem i) (hfit : 4 + s.numCells * 4 ≤ bodyLen.toNat)
    (hmod : bodyLen.toNat % 4 = 0) :
    (sixpPktGetCandCellList m false ⟨false, bodyLen⟩).run data =
      some ⟨4 + s.numCells * 4, bodyLen.toNat - (4 + s.numCells * 4)⟩ := by
  have hoff : getRelCellListOffset m = some 4 := if_pos hm
  have hnum := run_getNumCells_of_fits hm (by omega) hdata
  unfold sixpPktGetCandCellList
  rw [run_bind, run_require, if_pos ⟨rfl, rfl⟩]
  change (sixpPktGetNumCells m false ⟨false, bodyLen⟩ >>= _).run data = _
  rw [run_bind, hnum]
  change (needOffset (getRelCellListOffset m) >>= _).run data = _
  rw [run_bind, hoff]
  change (require (4 + s.numCells * 4 ≤ bodyLen.toNat) >>= _).run data = _
  rw [run_bind, run_require, if_pos hfit]
  change (require ((bodyLen.toNat - (4 + s.numCells * 4)) % 4 = 0) >>= _).run data = _
  rw [run_bind, run_require, if_pos (by omega)]
  rfl

theorem getsPayload_of_kept (hk : Kept cmd m bodyLen.toNat s)
    (hdata : ∀ i < bodyLen.toNat, data i = s.mem i)
    (hoff : Field.payload.offsetOf m = some o) :
    GetsPayload m data ⟨false, bodyLen⟩ (s.record .payload) := by
  intro bufLen buf hroom
  have hoff' : getPayloadOffset m = some o := hoff
  have hfit : ((bodyLen.toNat : ℤ) - o ≤ bufLen.toNat) := by
    have hle : bodyLen.toNat ≤ o + bufLen.toNat := hroom o hoff'
    omega
  have hargs : (require (false = false ∧ false = false) : Transfer UInt8 Unit).run data =
      some () := rfl
  have hneed : (needOffset (getPayloadOffset m)).run data = some o := by
    rw [hoff']
    rfl
  have htest : (require ((bodyLen.toNat : ℤ) - o ≤ bufLen.toNat) : Transfer UInt8 Unit).run data =
      some () := run_require_eq_some.2 hfit
  constructor
  · unfold sixpPktGetPayload
    rw [run_bind, hargs, Option.bind_some, run_bind, hneed, Option.bind_some, run_bind, htest,
      Option.bind_some, run_copy]
  · intro i b hb
    obtain ⟨_, _, hmem, hlt⟩ := hk _ i b hb
    have hlt := hlt trivial
    rw [pos_eq hoff, Field.shift_of_ne (by decide), Nat.add_zero] at hmem hlt
    have hi : i < bufLen.toNat := by omega
    have hload : i < (Memory.load data o bufLen.toNat).length := by rwa [Memory.length_load]
    unfold sixpPktGetPayload
    rw [target_bind_of_quiet (quiet_require (n := 0) _).writes hargs,
      target_bind_of_quiet (writes_needOffset _) hneed,
      target_bind_of_quiet (quiet_require (n := 0) _).writes htest, target_copy]
    have hstored : Memory.store buf 0 (Memory.load data o bufLen.toNat) i =
        (Memory.load data o bufLen.toNat)[i] := by
      have hadd := Memory.store_add (m := buf) (p := 0) hload
      rwa [Nat.zero_add] at hadd
    have hget := Memory.getElem?_load (m := data) (p := o) hi
    rw [List.getElem?_eq_getElem hload] at hget
    rw [hstored, Option.some.inj hget, hdata _ hlt, hmem]

theorem request_of_some {cmds : List UInt8} {k : ℕ}
    (hf : f.offsetOf m = if m.IsRequest cmds then some k else none)
    (hoff : f.offsetOf m = some o) : m.IsRequest cmds ∧ o = k := by
  rw [hf] at hoff
  split at hoff
  · exact ⟨‹_›, (Option.some.inj hoff).symm⟩
  · cases hoff

/-- The list of cells is whole. -/
theorem cellList_fits (hoff : getCellListOffset m = some o) (h : LenOk m len) (hmod : len % 4 = 0) :
    o ≤ len ∧ (len - o) % 4 = 0 := by
  unfold getCellListOffset at hoff
  split at hoff
  · rename_i hm
    obtain rfl := Option.some.inj hoff
    have hcode : m.code = cmdAdd ∨ m.code = cmdDelete := by simpa using hm.2
    have hcells : m.IsRequest [cmdAdd, cmdDelete, cmdRelocate] :=
      ⟨hm.1, by rcases hcode with h | h <;> rw [h] <;> decide⟩
    have hfour := four_le_of_cells hcells h
    omega
  · split at hoff
    · obtain rfl := Option.some.inj hoff
      exact ⟨Nat.zero_le len, hmod⟩
    · cases hoff

theorem cells_of_relocate (hm : m.IsRequest [cmdRelocate]) :
    m.IsRequest [cmdAdd, cmdDelete, cmdRelocate] := by
  have hcode : m.code = cmdRelocate := List.mem_singleton.1 hm.2
  exact ⟨hm.1, by rw [hcode]; decide⟩

/-- Every getter of a body that agrees with what the setters made returns what was set. -/
theorem returned_of_kept (hk : Kept cmd m bodyLen.toNat s)
    (hwf : WellFormed cmd m s.mem bodyLen.toNat) (hdata : ∀ i < bodyLen.toNat, data i = s.mem i)
    (hf : HasField cmd m f) : Returned m data ⟨false, bodyLen⟩ s.record f := by
  have hlen := hwf.lenOk
  have hfits := hwf.fits f hf
  obtain ⟨o, hoff⟩ := Option.ne_none_iff_exists'.1 hf.1
  cases f with
  | metadata =>
      have hreq : m.type = .request := by
        by_contra hne
        exact hf.1 (if_neg hne)
      obtain rfl : 0 = o := Option.some.inj ((if_pos hreq).symm.trans hoff)
      exact getsNumber_getField hk hdata (by decide) hoff (two_le_of_request hreq hlen)
  | cellOptions =>
      obtain ⟨hm, rfl⟩ := request_of_some rfl hoff
      exact getsNumber_getField hk hdata (by decide) hoff (three_le_of_options hm hlen)
  | numCells =>
      obtain ⟨hm, rfl⟩ := request_of_some rfl hoff
      exact getsNumber_getField hk hdata (by decide) hoff (four_le_of_cells hm hlen).1
  | reserved =>
      obtain ⟨hm, rfl⟩ := request_of_some rfl hoff
      have height := eight_of_list hm hlen
      exact getsNumber_getReserved hk hdata hoff (by omega)
  | offset =>
      obtain ⟨hm, rfl⟩ := request_of_some rfl hoff
      have height := eight_of_list hm hlen
      exact getsNumber_getField hk hdata (by decide) hoff (by omega)
  | maxNumCells =>
      obtain ⟨hm, rfl⟩ := request_of_some rfl hoff
      have height := eight_of_list hm hlen
      exact getsNumber_getField hk hdata (by decide) hoff (by omega)
  | cellList =>
      obtain ⟨hle, hmod⟩ := cellList_fits hoff hlen hfits
      refine getsCells_of_run hk hdata (f := .cellList) trivial hoff
        (run_getCellList hoff hle hmod) ?_
      intro i _ hlt
      have hshift : Field.cellList.shift s.numCells = 0 := rfl
      rw [hshift] at hlt
      omega
  | relCellList =>
      obtain ⟨hm, rfl⟩ := request_of_some rfl hoff
      have hmod := (four_le_of_cells (cells_of_relocate hm) hlen).2
      exact getsCells_of_run hk hdata (f := .relCellList) trivial hoff
        (run_getRelCellList hm hdata hfits hmod) fun i hi _ => hi
  | candCellList =>
      obtain ⟨hm, rfl⟩ := request_of_some rfl hoff
      have hmod := (four_le_of_cells (cells_of_relocate hm) hlen).2
      have hfit : 4 + s.numCells * 4 ≤ bodyLen.toNat := hwf.fits .relCellList ⟨hf.1, .inl hm.1⟩
      refine getsCells_of_run hk hdata (f := .candCellList) trivial hoff
        (run_getCandCellList hm hdata hfit hmod) ?_
      intro i _ hlt
      rw [Field.shift] at hlt
      omega
  | totalNumCells =>
      have ho : o = 0 := by
        have hoff' : getTotalNumCellsOffset m = some o := hoff
        unfold getTotalNumCellsOffset at hoff'
        split at hoff'
        · exact (Option.some.inj hoff').symm
        · cases hoff'
      subst ho
      exact getsNumber_getField hk hdata (by decide) hoff hfits
  | payload => exact getsPayload_of_kept hk hdata hoff

/-! ## Messages -/

/-- The body that is passed to `sixp_pkt_create`: NULL if it is empty. -/
def bodyOf (mem : ℕ → UInt8) (bodyLen : UInt16) : Option (ℕ → UInt8) :=
  if bodyLen = 0 then none else some mem

/-- Whatever is behind the buffer, the packet is parsed, and the getters return what was set. -/
def Restored (cfg : Config) (cmd : UInt8) (m : Msg) (sfid seqno : UInt8) (r : Record)
    (p : Packetbuf) : Prop :=
  ∀ mem, (∀ i < cfg.packetbufSize, mem i = p.packetbuf i) →
    ∃ pkt, sixpPktParse mem (packetbufTotlen p) = some pkt ∧
      pkt.type = m.type ∧ pkt.code = m.code ∧ pkt.sfid = sfid ∧ pkt.seqno = seqno ∧
      ∀ f, HasField cmd m f → Returned ⟨pkt.type, pkt.code⟩ (fun i => mem (pkt.body + i))
        ⟨false, UInt16.ofNat pkt.bodyLen⟩ r f

variable {cfg : Config} {sfid seqno : UInt8} {p p' : Packetbuf}

theorem given_bodyOf (mem : ℕ → UInt8) (bodyLen : UInt16) : Given (bodyOf mem bodyLen) bodyLen := by
  unfold Given bodyOf
  by_cases h : bodyLen = 0
  · exact iff_of_true (if_pos h) h
  · rw [if_neg h]
    exact iff_of_false nofun h

theorem bodyBytes_bodyOf (mem : ℕ → UInt8) (bodyLen : UInt16) :
    bodyBytes (bodyOf mem bodyLen) bodyLen = Memory.load mem 0 bodyLen.toNat := by
  unfold bodyOf
  by_cases h : bodyLen = 0
  · rw [if_pos h, h]
    rfl
  · rw [if_neg h]
    rfl

theorem restored_of_recovered (hk : Kept cmd m bodyLen.toNat s)
    (hwf : WellFormed cmd m s.mem bodyLen.toNat)
    (h : Recovered cfg m sfid seqno (Memory.load s.mem 0 bodyLen.toNat) p) :
    Restored cfg cmd m sfid seqno s.record p := by
  intro mem hmem
  obtain ⟨start, hparse, hload⟩ := h mem hmem
  refine ⟨_, hparse, rfl, rfl, rfl, rfl, fun f hf => ?_⟩
  have hlen : UInt16.ofNat (Memory.load s.mem 0 bodyLen.toNat).length = bodyLen := by
    rw [Memory.length_load, UInt16.ofNat_toNat]
  dsimp only
  rw [hlen]
  refine returned_of_kept hk hwf (fun i hi => ?_) hf
  rw [Memory.length_load] at hload
  have hget := congrArg (fun l => l[i]?) hload
  simp only [Memory.getElem?_load hi, Nat.zero_add, Option.some.injEq] at hget
  exact hget

/-- A well-formed message, made by setters that are not in each other's way, is recovered with all
that was set exactly if its header and its body fit the packet buffer together. -/
theorem sixpPkt_roundTrip {cs : List Call} {mem : ℕ → UInt8}
    (hok : Transition.Meets (step cmd m bodyLen) (Undisturbed m) cs ⟨mem, Record.empty⟩)
    (hrun : Transition.run (step cmd m bodyLen) cs ⟨mem, Record.empty⟩ = some s)
    (hwf : WellFormed cmd m s.mem bodyLen.toNat)
    (h : sixpPktCreate cfg m sfid seqno (bodyOf s.mem bodyLen) bodyLen p = some p') :
    Recovered cfg m sfid seqno (Memory.load s.mem 0 bodyLen.toNat) p' ∧
        Restored cfg cmd m sfid seqno s.record p' ↔
      4 + bodyLen.toNat ≤ cfg.packetbufSize := by
  have hiff := recovered_iff (given_bodyOf s.mem bodyLen) hwf.lenOk h
  rw [bodyBytes_bodyOf] at hiff
  refine ⟨fun hboth => hiff.1 hboth.1, fun hfit => ?_⟩
  have hrec := hiff.2 hfit
  exact ⟨hrec, restored_of_recovered (kept_run hok hrun) hwf hrec⟩

/-- A relocation of one cell. -/
theorem sixpPkt_roundTrip_relocate :
    ∃ (s : Build) (p' : Packetbuf), s.record .relCellList 3 = some 7 ∧
      Recovered ⟨127, by decide⟩ ⟨.request, cmdRelocate⟩ 1 2 (Memory.load s.mem 0 8) p' ∧
      Restored ⟨127, by decide⟩ cmdRelocate ⟨.request, cmdRelocate⟩ 1 2 s.record p' := by
  have hok : Transition.Meets (step cmdRelocate ⟨.request, cmdRelocate⟩ 8)
      (Undisturbed ⟨.request, cmdRelocate⟩)
      [.setNumCells 1, .setRelCellList ⟨some fun _ => 7, 4, 0⟩] ⟨fun _ => 0, Record.empty⟩ := by
    refine (Transition.meets_cons rfl).2 ⟨?_, (Transition.meets_cons rfl).2 ⟨?_, trivial⟩⟩
    · exact fun _ => .inr fun _ => ⟨rfl, rfl⟩
    · exact Nat.le_refl 4
  obtain ⟨s, hrun, hset, hwf⟩ : ∃ s,
      Transition.run (step cmdRelocate ⟨.request, cmdRelocate⟩ 8)
        [.setNumCells 1, .setRelCellList ⟨some fun _ => 7, 4, 0⟩] ⟨fun _ => 0, Record.empty⟩ =
          some s ∧
      s.record .relCellList 3 = some 7 ∧
      WellFormed cmdRelocate ⟨.request, cmdRelocate⟩ s.mem 8 := by
    refine ⟨_, rfl, rfl, by decide, fun f _ => ?_⟩
    cases f with
    | cellList => exact (rfl : 8 % 4 = 0)
    | relCellList => exact Nat.le_refl 8
    | totalNumCells => exact (by decide : 2 ≤ 8)
    | _ => trivial
  have hsome : (sixpPktCreate ⟨127, by decide⟩ ⟨.request, cmdRelocate⟩ 1 2 (bodyOf s.mem 8) 8
      ⟨fun _ => 0, 0, 0, 0⟩).isSome :=
    (isSome_sixpPktCreate_iff (given_bodyOf s.mem 8)).2 ⟨by decide, by decide⟩
  obtain ⟨p', hp'⟩ := Option.isSome_iff_exists.1 hsome
  exact ⟨s, p', hset, (sixpPkt_roundTrip hok hrun hwf hp').2 (by decide)⟩

/-- A list to relocate that starts behind the number of cells overwrites the candidates. -/
theorem not_candCellList_returned :
    ∃ s, Transition.run (step cmdRelocate ⟨.request, cmdRelocate⟩ 12)
        [.setNumCells 1, .setCandCellList ⟨some fun _ => 1, 4, 0⟩,
          .setRelCellList ⟨some fun _ => 9, 4, 4⟩] ⟨fun _ => 0, Record.empty⟩ = some s ∧
      WellFormed cmdRelocate ⟨.request, cmdRelocate⟩ s.mem 12 ∧
      ¬ Returned ⟨.request, cmdRelocate⟩ s.mem ⟨false, 12⟩ s.record .candCellList := by
  refine ⟨_, rfl, ⟨by decide, fun f _ => ?_⟩, ?_⟩
  · cases f with
    | cellList => exact (rfl : 12 % 4 = 0)
    | relCellList => exact (by decide : 8 ≤ 12)
    | totalNumCells => exact (by decide : 2 ≤ 12)
    | _ => trivial
  · rintro ⟨cells, hrun, hset⟩
    obtain rfl : ⟨8, 4⟩ = cells := Option.some.inj hrun
    obtain ⟨_, hbyte⟩ := hset 0 1 rfl
    exact absurd hbyte (by decide)

end Den2ne.SixpPkt

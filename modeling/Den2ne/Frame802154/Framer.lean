import Den2ne.Frame802154.Bounds

/-!
# The framer

`framer_802154.parse` decides with the parsed header whether a frame is for this PAN, and
sets the addresses and the sequence number of the packet buffer. `Independent` says that
this does not depend on anything but the bytes of the frame. The frame structure of the
framer is a local variable, so what the parser leaves unset in it is one of its arguments
here.
-/

namespace Den2ne

namespace Frame802154

open Reads

/-- `frame802154_is_broadcast_addr`. -/
def isBroadcastAddr (mode : UInt8) (addr : Vector UInt8 8) : Bool :=
  (addr.toList.take (if mode = shortAddrMode then 2 else 8)).all (· = 0xff)

/-- `FRAME802154_BROADCASTPANDID`. -/
def broadcastPanid : UInt16 := 0xffff

/-- The options of the framer: also `LLSEC802154_USES_FRAME_COUNTER`. -/
structure FramerConfig extends Config where
  usesFrameCounter : Bool

/-- What `framer_802154.parse` returns, `none` for `FRAMER_FAILED`, and what it sets in the
packet buffer; `none` is an attribute or an address that it leaves. -/
structure Parsed where
  hdrLen : Option ℕ := none
  frameType : Option UInt8 := none
  macAck : Option UInt8 := none
  receiver : Option (List UInt8) := none
  sender : Option (List UInt8) := none
  macSeqno : Option UInt16 := none
  securityLevel : Option UInt8 := none
  frameCounter : Option (Vector UInt8 4) := none
  keyIdMode : Option UInt8 := none
  keyIndex : Option UInt8 := none
deriving DecidableEq

/-- `packetbuf_set_addr`: the bytes of a `linkaddr_t`. -/
def linkaddr (cfg : Config) (addr : Vector UInt8 8) : List UInt8 :=
  addr.toList.take cfg.linkaddrSize

/-- What `framer_802154.parse` does with a parsed frame; `panId` is
`frame802154_get_pan_id()`. -/
def setPacketbuf (cfg : FramerConfig) (panId : UInt16) (hdrLen : ℕ) (frame : Frame802154) :
    Parsed :=
  let parsed : Parsed :=
    { frameType := some frame.fcf.frameType, macAck := some frame.fcf.ackRequired }
  if frame.fcf.destAddrMode ≠ 0 ∧ frame.destPid ≠ panId ∧ frame.destPid ≠ broadcastPanid then
    parsed
  else
    let secured := cfg.usesAuxHeader && frame.fcf.securityEnabled != 0
    { parsed with
      hdrLen := some hdrLen
      receiver :=
        if frame.fcf.destAddrMode ≠ 0 ∧
            isBroadcastAddr frame.fcf.destAddrMode frame.destAddr = false then
          some (linkaddr cfg.toConfig frame.destAddr)
        else none
      sender := some (linkaddr cfg.toConfig frame.srcAddr)
      macSeqno := some
        (if frame.fcf.sequenceNumberSuppression = 0 then frame.seq.toUInt16 else 0xffff)
      securityLevel :=
        if secured then some frame.auxHdr.securityControl.securityLevel else none
      frameCounter :=
        if secured && cfg.usesFrameCounter then some frame.auxHdr.frameCounter else none
      keyIdMode :=
        if secured && cfg.usesExplicitKeys then some frame.auxHdr.securityControl.keyIdMode
        else none
      keyIndex :=
        if secured && cfg.usesExplicitKeys then some frame.auxHdr.keyIndex else none }

/-- `framer_802154.parse`, for a frame of `len` bytes, with `frame` for the local variable. -/
def framerParse (cfg : FramerConfig) (panId : UInt16) (data : ℕ → UInt8) (len : ℕ)
    (frame : Frame802154) : Parsed :=
  let (hdrLen, frame) := parse cfg.toConfig data len frame
  if hdrLen ≠ 0 ∧ hdrLen ≤ len then setPacketbuf cfg panId hdrLen frame else {}

/-- The decision whether the frame is taken, the addresses and the sequence number. -/
def Parsed.decision (r : Parsed) :
    Option ℕ × Option (List UInt8) × Option (List UInt8) × Option UInt16 :=
  (r.hdrLen, r.receiver, r.sender, r.macSeqno)

/-- The decision depends on the bytes of the frame only. -/
def Independent (cfg : FramerConfig) (panId : UInt16) (data : ℕ → UInt8) (len : ℕ) : Prop :=
  ∀ (data' : ℕ → UInt8) (frame frame' : Frame802154), (∀ i < len, data' i = data i) →
    (framerParse cfg panId data' len frame').decision =
      (framerParse cfg panId data len frame).decision

/-! ## The fields of a header -/

section Fields

variable {cfg : Config} {fcf : Fcf} {data : ℕ → UInt8}

/-- The PAN id of the destination that the bytes of a frame announce, for a frame with a
destination. -/
def announcedPan (data : ℕ → UInt8) : UInt16 :=
  let fcf := parseFcf (data 0) (data 1)
  let p := 2 + if fcf.sequenceNumberSuppression = 0 then 1 else 0
  if (hasPanid fcf).2 then parsePid data p
  else if fcf.srcAddrMode ≠ 0 ∧ (hasPanid fcf).1 then
    parsePid data (p + addrLen fcf.destAddrMode)
  else 0

/-- The frame is for this PAN. -/
def ForPan (panId : UInt16) (data : ℕ → UInt8) : Prop :=
  (parseFcf (data 0) (data 1)).destAddrMode = 0 ∨ announcedPan data = panId ∨
    announcedPan data = broadcastPanid

instance (panId : UInt16) (data : ℕ → UInt8) : Decidable (ForPan panId data) :=
  inferInstanceAs (Decidable (_ ∨ _ ∨ _))

/-- The auxiliary security header touches no other field. -/
theorem parseAux_pf (cfg : Config) (fcf : Fcf) (data : ℕ → UInt8) (s : Cursor) :
    ∃ aux, (parseAux cfg fcf data s).pf = { s.pf with auxHdr := aux } := by
  unfold parseAux
  split
  · exact ⟨_, rfl⟩
  · exact ⟨s.pf.auxHdr, rfl⟩

theorem parseFields_fcf (cfg : Config) (fcf : Fcf) (data : ℕ → UInt8) (pf : Frame802154) :
    (parseFields cfg fcf data pf).pf.fcf = fcf := by
  have hseqno : ∀ s : Cursor, (parseSeqno fcf data s).pf.fcf = s.pf.fcf := fun s => by
    unfold parseSeqno
    split <;> rfl
  have hdest : ∀ s : Cursor, (parseDest cfg fcf data s).pf.fcf = s.pf.fcf := fun s => by
    unfold parseDest
    split
    · split <;> rfl
    · rfl
  have hsrc : ∀ s : Cursor, (parseSrc cfg fcf data s).pf.fcf = s.pf.fcf := fun s => by
    unfold parseSrc
    split
    · split <;> rfl
    · rfl
  rw [parseFields, hsrc, hdest, hseqno]

theorem parseFields_seq (cfg : Config) {fcf : Fcf} (h : fcf.sequenceNumberSuppression = 0)
    (data : ℕ → UInt8) (pf : Frame802154) : (parseFields cfg fcf data pf).pf.seq = data 2 := by
  have hdest : ∀ s : Cursor, (parseDest cfg fcf data s).pf.seq = s.pf.seq := fun s => by
    unfold parseDest
    split
    · split <;> rfl
    · rfl
  have hsrc : ∀ s : Cursor, (parseSrc cfg fcf data s).pf.seq = s.pf.seq := fun s => by
    unfold parseSrc
    split
    · split <;> rfl
    · rfl
  rw [parseFields, hsrc, hdest, parseSeqno, if_pos h]

theorem parseFields_destPid (cfg : Config) (data : ℕ → UInt8)
    (h : (parseFcf (data 0) (data 1)).destAddrMode ≠ 0) (pf : Frame802154) :
    (parseFields cfg (parseFcf (data 0) (data 1)) data pf).pf.destPid = announcedPan data := by
  obtain ⟨fcf, hfcf⟩ : ∃ fcf, fcf = parseFcf (data 0) (data 1) := ⟨_, rfl⟩
  rw [← hfcf] at h ⊢
  rw [parseFields, announcedPan, ← hfcf]
  have hp := parseSeqno_p fcf data { p := 2, pf := { pf with fcf := fcf } }
  generalize parseSeqno fcf data { p := 2, pf := { pf with fcf := fcf } } = s at hp
  dsimp only at hp ⊢
  rw [← hp]
  unfold parseSrc parseDest
  rw [if_pos h]
  by_cases hsrc : fcf.srcAddrMode ≠ 0 <;> by_cases hdest : (hasPanid fcf).2 = true <;>
    by_cases hpan : (hasPanid fcf).1 = true <;> simp [hsrc, hdest, hpan]

theorem parseDest_addr (cfg : Config) (fcf : Fcf) (data : ℕ → UInt8) (s : Cursor) :
    (parseDest cfg fcf data s).pf.destAddr =
        (if fcf.destAddrMode ≠ 0 then parseAddr cfg fcf.destAddrMode data
          (s.p + if (hasPanid fcf).2 then 2 else 0) s.pf.destAddr
        else clearLinkaddr cfg s.pf.destAddr) ∧
      (parseDest cfg fcf data s).pf.srcAddr = s.pf.srcAddr := by
  unfold parseDest
  split
  · split <;> exact ⟨rfl, rfl⟩
  · exact ⟨rfl, rfl⟩

theorem parseSrc_addr (cfg : Config) (fcf : Fcf) (data : ℕ → UInt8) (s : Cursor) :
    (parseSrc cfg fcf data s).pf.srcAddr =
        (if fcf.srcAddrMode ≠ 0 then parseAddr cfg fcf.srcAddrMode data
          (s.p + if (hasPanid fcf).1 then 2 else 0) s.pf.srcAddr
        else clearLinkaddr cfg s.pf.srcAddr) ∧
      (parseSrc cfg fcf data s).pf.destAddr = s.pf.destAddr := by
  unfold parseSrc
  split
  · split <;> exact ⟨rfl, rfl⟩
  · exact ⟨rfl, rfl⟩

/-- The addresses of the header, at positions that do not depend on what the frame
structure held. -/
theorem parseFields_addr (cfg : Config) (fcf : Fcf) (data : ℕ → UInt8) :
    ∃ p q, ∀ pf,
      (parseFields cfg fcf data pf).pf.destAddr =
        (if fcf.destAddrMode ≠ 0 then parseAddr cfg fcf.destAddrMode data p pf.destAddr
          else clearLinkaddr cfg pf.destAddr) ∧
      (parseFields cfg fcf data pf).pf.srcAddr =
        (if fcf.srcAddrMode ≠ 0 then parseAddr cfg fcf.srcAddrMode data q pf.srcAddr
          else clearLinkaddr cfg pf.srcAddr) := by
  have hseqno : ∀ s : Cursor, (parseSeqno fcf data s).pf.destAddr = s.pf.destAddr ∧
      (parseSeqno fcf data s).pf.srcAddr = s.pf.srcAddr := fun s => by
    unfold parseSeqno
    split <;> exact ⟨rfl, rfl⟩
  refine ⟨2 + (if fcf.sequenceNumberSuppression = 0 then 1 else 0) +
      (if (hasPanid fcf).2 then 2 else 0),
    2 + (if fcf.sequenceNumberSuppression = 0 then 1 else 0) +
      (if fcf.destAddrMode ≠ 0 then
        (if (hasPanid fcf).2 then 2 else 0) + addrLen fcf.destAddrMode else 0) +
      (if (hasPanid fcf).1 then 2 else 0), fun pf => ⟨?_, ?_⟩⟩
  · rw [parseFields, (parseSrc_addr _ _ _ _).2, (parseDest_addr _ _ _ _).1, (hseqno _).1,
      parseSeqno_p]
  · rw [parseFields, (parseSrc_addr _ _ _ _).1, (parseDest_addr _ _ _ _).2, (hseqno _).2,
      parseDest_p, parseSeqno_p]

theorem get_ofFn (f : Fin 8 → UInt8) (i : Fin 8) : (Vector.ofFn f).get i = f i :=
  Vector.getElem_ofFn i.isLt

/-- The bytes of an address that are used. -/
theorem get_parseAddr (cfg : Config) {mode : UInt8} (hmode : mode = 2 ∨ mode = 3)
    (data : ℕ → UInt8) (p : ℕ) (addr addr' : Vector UInt8 8) (i : Fin 8)
    (hi : mode = 2 → i.val < 2 ∨ i.val < cfg.linkaddrSize) :
    (parseAddr cfg mode data p addr).get i = (parseAddr cfg mode data p addr').get i := by
  rcases hmode with rfl | rfl
  · have hshort : (2 : UInt8) = shortAddrMode := rfl
    rw [parseAddr, parseAddr, if_pos hshort, if_pos hshort]
    simp only [get_ofFn, clearLinkaddr]
    by_cases h₀ : i.val = 0
    · rw [if_pos h₀, if_pos h₀]
    · by_cases h₁ : i.val = 1
      · rw [if_neg h₀, if_neg h₀, if_pos h₁, if_pos h₁]
      · have hlt : i.val < cfg.linkaddrSize := (hi rfl).resolve_left (by omega)
        rw [if_neg h₀, if_neg h₀, if_neg h₁, if_neg h₁, if_pos hlt, if_pos hlt]
  · have hshort : ¬ (3 : UInt8) = shortAddrMode := by decide
    have hlong : (3 : UInt8) = longAddrMode := rfl
    rw [parseAddr, parseAddr, if_neg hshort, if_neg hshort, if_pos hlong, if_pos hlong]

theorem take_toList_congr {a b : Vector UInt8 8} {n : ℕ}
    (h : ∀ i : Fin 8, i.val < n → a.get i = b.get i) : a.toList.take n = b.toList.take n := by
  have hlength : ∀ c : Vector UInt8 8, (c.toList.take n).length = min n 8 := fun c => by
    rw [List.length_take, Vector.length_toList]
  refine List.ext_getElem ((hlength a).trans (hlength b).symm) fun i hi hi' => ?_
  rw [hlength] at hi
  rw [List.getElem_take, List.getElem_take, Vector.getElem_toList, Vector.getElem_toList]
  exact h ⟨i, by omega⟩ (show i < n by omega)

end Fields

/-! ## Independence -/

section Independence

variable {cfg : FramerConfig} {panId : UInt16} {data data' : ℕ → UInt8} {len : ℕ}

variable (cfg data) in
/-- The parsed frame, where there is a frame control field. -/
theorem parse_fields (hlen : 2 ≤ len) (frame : Frame802154) :
    (parse cfg.toConfig data len frame).1 =
        (if announcedLen cfg.toConfig data ≤ len then announcedLen cfg.toConfig data else 0) ∧
      ∃ aux payload payloadLen, (parse cfg.toConfig data len frame).2 =
        { (parseFields cfg.toConfig (parseFcf (data 0) (data 1)) data frame).pf with
          auxHdr := aux, payload := payload, payloadLen := payloadLen } := by
  obtain ⟨aux, haux⟩ := parseAux_pf cfg.toConfig (parseFcf (data 0) (data 1)) data
    (parseFields cfg.toConfig (parseFcf (data 0) (data 1)) data frame)
  rw [parse_eq hlen rfl, parse_cursor, haux]
  refine ⟨?_, aux, _, _, rfl⟩
  by_cases h : announcedLen cfg.toConfig data ≤ len
  · rw [if_neg (by omega), if_pos h]
  · rw [if_pos (by omega), if_neg h]

/-- What the framer decides from a parsed frame. -/
theorem decision_setPacketbuf (cfg : FramerConfig) (panId : UInt16) (hdrLen : ℕ)
    (frame : Frame802154) :
    (setPacketbuf cfg panId hdrLen frame).decision =
      if frame.fcf.destAddrMode ≠ 0 ∧ frame.destPid ≠ panId ∧ frame.destPid ≠ broadcastPanid then
        (none, none, none, none)
      else
        (some hdrLen,
          (if frame.fcf.destAddrMode ≠ 0 ∧
              isBroadcastAddr frame.fcf.destAddrMode frame.destAddr = false then
            some (linkaddr cfg.toConfig frame.destAddr) else none),
          some (linkaddr cfg.toConfig frame.srcAddr),
          some (if frame.fcf.sequenceNumberSuppression = 0 then frame.seq.toUInt16 else 0xffff)) := by
  unfold setPacketbuf
  split <;> rfl

/-- What the framer decides from a header that is in the frame. -/
theorem decision_framerParse (hlen : 2 ≤ len) (hle : announcedLen cfg.toConfig data ≤ len)
    (frame : Frame802154) :
    (framerParse cfg panId data len frame).decision =
      let fcf := parseFcf (data 0) (data 1)
      let pf := (parseFields cfg.toConfig fcf data frame).pf
      if ForPan panId data then
        (some (announcedLen cfg.toConfig data),
          (if fcf.destAddrMode ≠ 0 ∧ isBroadcastAddr fcf.destAddrMode pf.destAddr = false then
            some (linkaddr cfg.toConfig pf.destAddr) else none),
          some (linkaddr cfg.toConfig pf.srcAddr),
          some (if fcf.sequenceNumberSuppression = 0 then (data 2).toUInt16 else 0xffff))
      else (none, none, none, none) := by
  obtain ⟨hhdr, aux, payload, payloadLen, hpf⟩ := parse_fields cfg data hlen frame
  have hpos := two_le_announcedLen cfg.toConfig data
  have hfields := parseFields_fcf cfg.toConfig (parseFcf (data 0) (data 1)) data frame
  have hseq : (parseFcf (data 0) (data 1)).sequenceNumberSuppression = 0 → _ :=
    fun h => parseFields_seq cfg.toConfig h data frame
  have hpid := fun h => parseFields_destPid cfg.toConfig data h frame
  have hforPan : ForPan panId data ↔ (parseFcf (data 0) (data 1)).destAddrMode = 0 ∨
      announcedPan data = panId ∨ announcedPan data = broadcastPanid := Iff.rfl
  rw [if_pos hle] at hhdr
  unfold framerParse
  dsimp only
  rw [hhdr, hpf, if_pos ⟨by omega, hle⟩, decision_setPacketbuf]
  dsimp only
  generalize (parseFields cfg.toConfig (parseFcf (data 0) (data 1)) data frame).pf = pf at *
  generalize parseFcf (data 0) (data 1) = fcf at *
  rw [hfields]
  by_cases hpan : ForPan panId data
  · have htaken : ¬ (fcf.destAddrMode ≠ 0 ∧ pf.destPid ≠ panId ∧ pf.destPid ≠ broadcastPanid) := by
      rintro ⟨hdest, hne⟩
      rw [hpid hdest] at hne
      exact (hforPan.1 hpan).elim hdest fun h => h.elim hne.1 hne.2
    rw [if_pos hpan, if_neg htaken]
    by_cases hsup : fcf.sequenceNumberSuppression = 0
    · rw [if_pos hsup, if_pos hsup, hseq hsup]
    · rw [if_neg hsup, if_neg hsup]
  · obtain ⟨hdest, hne⟩ := not_or.1 fun h => hpan (hforPan.2 h)
    rw [if_neg hpan, if_pos ⟨hdest, by rw [hpid hdest]; exact not_or.1 hne⟩]

/-- The address modes that say where an address ends. -/
def addressed (fcf : Fcf) : Prop := fcf.destAddrMode ≠ 1 ∧ fcf.srcAddrMode ≠ 1

instance (fcf : Fcf) : Decidable (addressed fcf) := inferInstanceAs (Decidable (_ ∧ _))

theorem parseAddr_reserved (cfg : Config) (data : ℕ → UInt8) (p : ℕ) (addr : Vector UInt8 8) :
    parseAddr cfg 1 data p addr = addr := rfl

theorem mode_cases {mode : UInt8} (hlt : mode < 4) (h₁ : mode ≠ 1) :
    mode = 0 ∨ mode = 2 ∨ mode = 3 := by
  have hnat : mode.toNat < 4 := hlt
  have hne : mode.toNat ≠ 1 := fun h => h₁ (UInt8.toNat_inj.1 h)
  have hcases : mode.toNat = 0 ∨ mode.toNat = 2 ∨ mode.toNat = 3 := by omega
  exact hcases.imp UInt8.toNat_inj.1 (Or.imp UInt8.toNat_inj.1 UInt8.toNat_inj.1)

theorem parseFcf_modes (b c : UInt8) :
    (parseFcf b c).destAddrMode < 4 ∧ (parseFcf b c).srcAddrMode < 4 :=
  ⟨and_three_lt _, and_three_lt _⟩

/-- Nothing that is used of an address was in the frame structure before. -/
theorem parseFields_linkaddr (cfg : FramerConfig) (data : ℕ → UInt8)
    (haddressed : addressed (parseFcf (data 0) (data 1))) (frame frame' : Frame802154) :
    let fcf := parseFcf (data 0) (data 1)
    let pf := (parseFields cfg.toConfig fcf data frame).pf
    let pf' := (parseFields cfg.toConfig fcf data frame').pf
    (fcf.destAddrMode ≠ 0 → isBroadcastAddr fcf.destAddrMode pf.destAddr =
        isBroadcastAddr fcf.destAddrMode pf'.destAddr ∧
      linkaddr cfg.toConfig pf.destAddr = linkaddr cfg.toConfig pf'.destAddr) ∧
    linkaddr cfg.toConfig pf.srcAddr = linkaddr cfg.toConfig pf'.srcAddr := by
  intro fcf pf pf'
  obtain ⟨p, q, haddr⟩ := parseFields_addr cfg.toConfig fcf data
  obtain ⟨hdestlt, hsrclt⟩ := parseFcf_modes (data 0) (data 1)
  refine ⟨fun hdest => ?_, ?_⟩
  · have hmode := (mode_cases hdestlt haddressed.1).resolve_left hdest
    rw [(haddr frame).1, (haddr frame').1, if_pos hdest, if_pos hdest, isBroadcastAddr,
      isBroadcastAddr]
    refine ⟨congrArg (List.all · _) (take_toList_congr fun i hi => ?_),
      take_toList_congr fun i hi => get_parseAddr _ hmode _ _ _ _ i fun _ => .inr hi⟩
    refine get_parseAddr _ hmode _ _ _ _ i fun h => .inl ?_
    have hshort : fcf.destAddrMode = shortAddrMode := h
    rwa [if_pos hshort] at hi
  · rw [(haddr frame).2, (haddr frame').2]
    refine take_toList_congr fun i hi => ?_
    by_cases hsrc : fcf.srcAddrMode ≠ 0
    · have hmode := (mode_cases hsrclt haddressed.2).resolve_left hsrc
      rw [if_pos hsrc, if_pos hsrc]
      exact get_parseAddr _ hmode _ _ _ _ i fun _ => .inr hi
    · rw [if_neg hsrc, if_neg hsrc]
      simp only [clearLinkaddr, get_ofFn, if_pos hi]

variable (cfg) in
/-- Two memories with the same frame parse alike, if its header is in the frame. -/
theorem parse_congr (hle : announcedLen cfg.toConfig data ≤ len)
    (h : ∀ i < len, data' i = data i) (frame : Frame802154) :
    parse cfg.toConfig data' len frame = parse cfg.toConfig data len frame := by
  rw [← run_scanParse, ← run_scanParse]
  refine Scan.run_congr fun i hi => h i ?_
  have hinside := (reads_inside_iff cfg.toConfig data len frame).2 (.inr (Int.ofNat_le.2 hle)) i hi
  exact Int.ofNat_lt.1 hinside

/-- A frame that is too short for its header is too short whatever follows it. -/
theorem not_announcedLen_le (hlen : 2 ≤ len) (hnle : ¬ announcedLen cfg.toConfig data ≤ len)
    (h : ∀ i < len, data' i = data i) (frame : Frame802154) :
    (parse cfg.toConfig data' len frame).1 = 0 := by
  rw [(parse_fields cfg _ hlen frame).1]
  refine if_neg fun hle => ?_
  have hsame := parse_congr cfg hle (fun i hi => (h i hi).symm) frame
  have hlens := congrArg Prod.fst hsame
  rw [(parse_fields cfg _ hlen frame).1, (parse_fields cfg _ hlen frame).1, if_neg hnle, if_pos hle] at hlens
  have := two_le_announcedLen cfg.toConfig data'
  omega

theorem decision_of_zero {frame : Frame802154} (h : (parse cfg.toConfig data len frame).1 = 0) :
    (framerParse cfg panId data len frame).decision = (none, none, none, none) := by
  unfold framerParse
  dsimp only
  rw [if_neg fun hne => hne.1 h]
  rfl

/-- A frame structure with these addresses. -/
def frameWith (addr : Vector UInt8 8) : Frame802154 :=
  { longCounterFrame with destAddr := addr, srcAddr := addr }

/-- What the framer decides depends on nothing but the frame, unless its header is in the
frame, it is for this PAN, and one of its address modes is reserved. -/
theorem independent_iff (hsize : 0 < cfg.linkaddrSize) (hlen : 2 ≤ len) :
    Independent cfg panId data len ↔
      (announcedLen cfg.toConfig data ≤ len → ForPan panId data →
        addressed (parseFcf (data 0) (data 1))) := by
  constructor
  · intro hind hle hpan
    have heq := hind data (frameWith (Vector.replicate 8 0))
      (frameWith (Vector.replicate 8 0xff)) fun _ _ => rfl
    rw [decision_framerParse hlen hle, decision_framerParse hlen hle] at heq
    obtain ⟨p, q, haddr⟩ := parseFields_addr cfg.toConfig (parseFcf (data 0) (data 1)) data
    dsimp only at heq
    rw [if_pos hpan, if_pos hpan] at heq
    obtain ⟨-, heq⟩ := Prod.mk.inj heq
    obtain ⟨hreceiver, heq⟩ := Prod.mk.inj heq
    obtain ⟨hsender, -⟩ := Prod.mk.inj heq
    constructor
    · intro hdest
      have hone : (1 : UInt8) ≠ 0 := by decide
      rw [(haddr _).1, (haddr _).1, hdest, if_pos hone, if_pos hone, parseAddr_reserved,
        parseAddr_reserved, if_neg (by decide), if_pos (by decide)] at hreceiver
      exact Option.some_ne_none _ hreceiver.symm
    · intro hsrc
      have hone : (1 : UInt8) ≠ 0 := by decide
      rw [(haddr _).2, (haddr _).2, hsrc, if_pos hone, if_pos hone, parseAddr_reserved,
        parseAddr_reserved] at hsender
      have hhead := congrArg List.head? (Option.some.inj hsender)
      rw [linkaddr, linkaddr, List.head?_take, List.head?_take, if_neg (Nat.ne_of_gt hsize),
        if_neg (Nat.ne_of_gt hsize)] at hhead
      exact absurd hhead (by decide)
  · intro haddressed data' frame frame' h
    by_cases hle : announcedLen cfg.toConfig data ≤ len
    · have hsame : (framerParse cfg panId data' len frame').decision =
          (framerParse cfg panId data len frame').decision := by
        unfold framerParse
        rw [parse_congr cfg hle h frame']
      rw [hsame, decision_framerParse hlen hle, decision_framerParse hlen hle]
      dsimp only
      by_cases hpan : ForPan panId data
      · obtain ⟨hdest, hsrc⟩ := parseFields_linkaddr cfg data (haddressed hle hpan) frame frame'
        rw [if_pos hpan, if_pos hpan, hsrc]
        by_cases hmode : (parseFcf (data 0) (data 1)).destAddrMode ≠ 0
        · rw [(hdest hmode).1, (hdest hmode).2]
        · have hoff : ∀ b : Bool, ¬ ((parseFcf (data 0) (data 1)).destAddrMode ≠ 0 ∧ b = false) :=
            fun b h => hmode h.1
          rw [if_neg (hoff _), if_neg (hoff _)]
      · rw [if_neg hpan, if_neg hpan]
    · rw [decision_of_zero (not_announcedLen_le hlen hle h frame'),
        decision_of_zero (not_announcedLen_le hlen hle (fun _ _ => rfl) frame)]

/-- In a frame of less than two bytes the framer finds nothing. -/
theorem independent_of_lt (hlen : len < 2) : Independent cfg panId data len := by
  intro data' frame frame' _
  have hzero : ∀ (m : ℕ → UInt8) (f : Frame802154), (parse cfg.toConfig m len f).1 = 0 :=
    fun m f => by rw [parse, if_pos hlen]
  rw [decision_of_zero (hzero data' frame'), decision_of_zero (hzero data frame)]

end Independence

/-- The parser reads inside the frame, a length that it returns is that of a header inside
the frame, and the framer decides by the bytes of the frame, exactly for frames that are
shorter than two bytes, or have all of the header that they announce and no reserved
address mode if they are for this PAN. -/
theorem parse_inside_iff (cfg : FramerConfig) (hsize : 0 < cfg.linkaddrSize) (panId : UInt16)
    (data : ℕ → UInt8) (len : ℤ) :
    ((∀ pf, ∀ i ∈ (scanParse cfg.toConfig len pf).reads data, (i : ℤ) < len) ∧
      (∀ pf, ((scanParse cfg.toConfig len pf).run data).1 ≠ 0 →
        ((scanParse cfg.toConfig len pf).run data).1 = announcedLen cfg.toConfig data ∧
          (announcedLen cfg.toConfig data : ℤ) ≤ len) ∧
      Independent cfg panId data len.toNat) ↔
    len < 2 ∨ (announcedLen cfg.toConfig data : ℤ) ≤ len ∧
      (ForPan panId data → addressed (parseFcf (data 0) (data 1))) := by
  have hreads := reads_inside_iff cfg.toConfig data len
  constructor
  · rintro ⟨hinside, -, hind⟩
    by_cases hlen : len < 2
    · exact .inl hlen
    · have hle := ((hreads longCounterFrame).1 (hinside longCounterFrame)).resolve_left hlen
      exact .inr ⟨hle, (independent_iff hsize (by omega)).1 hind (by omega)⟩
  · intro h
    refine ⟨fun pf => (hreads pf).2 (h.imp_right And.left),
      fun pf => announcedLen_of_ne_zero cfg.toConfig data len pf, ?_⟩
    by_cases hlen : len < 2
    · exact independent_of_lt (by omega)
    · exact (independent_iff hsize (by omega)).2 fun _ => (h.resolve_left hlen).2

/-- No security, and addresses of eight bytes. -/
def plainFramer : FramerConfig := ⟨⟨false, false, 8⟩, false⟩

/-- An acknowledgement: three bytes. -/
theorem parse_inside_iff_ack :
    let data : ℕ → UInt8 := fun i => [0x02, 0x10, 7].getD i 0
    ((∀ pf, ∀ i ∈ (scanParse plainFramer.toConfig 3 pf).reads data, (i : ℤ) < 3) ∧
      (∀ pf, ((scanParse plainFramer.toConfig 3 pf).run data).1 ≠ 0 →
        ((scanParse plainFramer.toConfig 3 pf).run data).1 =
          announcedLen plainFramer.toConfig data ∧
          (announcedLen plainFramer.toConfig data : ℤ) ≤ 3) ∧
      Independent plainFramer 0xabcd data (3 : ℤ).toNat) ↔
    (3 : ℤ) < 2 ∨ (announcedLen plainFramer.toConfig data : ℤ) ≤ 3 ∧
      (ForPan 0xabcd data → addressed (parseFcf (data 0) (data 1))) :=
  parse_inside_iff plainFramer (by decide) 0xabcd _ 3

/-- A frame of three bytes that announces two long addresses is read up to its byte `20`. A
frame of five bytes with the reserved mode for its source is taken, and the address that
the framer sets is what the local variable held. -/
theorem not_parse_inside :
    20 ∈ (scanParse plainFramer.toConfig 3 longCounterFrame).reads
        (fun i => [0x41, 0xdc, 7].getD i 0) ∧
      (framerParse plainFramer 0xabcd (fun i => [0x01, 0x50, 7, 1, 2].getD i 0) 5
        (frameWith (Vector.replicate 8 0))).sender = some (List.replicate 8 0) ∧
      (framerParse plainFramer 0xabcd (fun i => [0x01, 0x50, 7, 1, 2].getD i 0) 5
        (frameWith (Vector.replicate 8 0x5a))).sender = some (List.replicate 8 0x5a) := by
  decide

end Frame802154

end Den2ne

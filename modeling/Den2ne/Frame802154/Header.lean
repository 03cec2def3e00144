import Mathlib.Data.Nat.Notation
import Mathlib.Data.Int.Notation

/-!
# IEEE 802.15.4 frame headers

`frame802154_create` and `frame802154_parse`. What the first writes is a list of
cells, one for each position of the buffer that it moves over; a cell that it
moves over without writing is `none`, and keeps what the buffer held. The second
does not compare its position with the length of the frame before it reads, so
it is given all the memory from the start of the frame on.
-/

namespace Den2ne

/-- The compile-time options: `LLSEC802154_USES_AUX_HEADER`,
`LLSEC802154_USES_EXPLICIT_KEYS` and `LINKADDR_SIZE`. -/
structure Frame802154.Config where
  usesAuxHeader : Bool
  usesExplicitKeys : Bool
  linkaddrSize : ℕ

/-- `frame802154_fcf_t`. -/
structure Fcf where
  frameType : UInt8
  securityEnabled : UInt8
  framePending : UInt8
  ackRequired : UInt8
  panidCompression : UInt8
  sequenceNumberSuppression : UInt8
  ieListPresent : UInt8
  destAddrMode : UInt8
  frameVersion : UInt8
  srcAddrMode : UInt8
  deriving DecidableEq

/-- `frame802154_scf_t`, without the reserved bits, which nothing uses. -/
structure Scf where
  securityLevel : UInt8
  keyIdMode : UInt8
  frameCounterSuppression : UInt8
  frameCounterSize : UInt8
  deriving DecidableEq

/-- `frame802154_aux_hdr_t`, its unions as the arrays `u8`. -/
structure AuxHdr where
  securityControl : Scf
  frameCounter : Vector UInt8 4
  keySource : Vector UInt8 8
  keyIndex : UInt8
  deriving DecidableEq

/-- `frame802154_t`; `payload` is the position of the payload in the memory
that the frame was parsed from. -/
structure Frame802154 where
  destAddr : Vector UInt8 8
  srcAddr : Vector UInt8 8
  fcf : Fcf
  seq : UInt8
  destPid : UInt16
  srcPid : UInt16
  auxHdr : AuxHdr
  payload : ℕ
  payloadLen : ℤ
  deriving DecidableEq

namespace Frame802154

/-- `FRAME802154_ACKFRAME`. -/
def ackFrame : UInt8 := 0x02
/-- `FRAME802154_NOADDR`. -/
def noAddr : UInt8 := 0x00
/-- `FRAME802154_SHORTADDRMODE`. -/
def shortAddrMode : UInt8 := 0x02
/-- `FRAME802154_LONGADDRMODE`. -/
def longAddrMode : UInt8 := 0x03
/-- `FRAME802154_IEEE802154_2015`. -/
def ieee802154v2015 : UInt8 := 0x02

/-- `addr_len`. -/
def addrLen (mode : UInt8) : ℕ :=
  if mode = shortAddrMode then 2 else if mode = longAddrMode then 8 else 0

/-- `get_key_id_len`. -/
def getKeyIdLen (keyIdMode : UInt8) : ℕ :=
  if keyIdMode = 1 then 1 else if keyIdMode = 2 then 5 else if keyIdMode = 3 then 9 else 0

/-- `frame802154_has_panid`: whether there is a source and a destination PAN id. -/
def hasPanid (fcf : Fcf) : Bool × Bool :=
  if fcf.frameVersion = ieee802154v2015 then
    (fcf.panidCompression = 0 &&
      ((fcf.destAddrMode = noAddr && fcf.srcAddrMode = longAddrMode) ||
       (fcf.destAddrMode = noAddr && fcf.srcAddrMode = shortAddrMode) ||
       (fcf.destAddrMode = shortAddrMode && fcf.srcAddrMode = shortAddrMode) ||
       (fcf.destAddrMode = shortAddrMode && fcf.srcAddrMode = longAddrMode) ||
       (fcf.destAddrMode = longAddrMode && fcf.srcAddrMode = shortAddrMode)),
     (fcf.destAddrMode = noAddr && fcf.srcAddrMode = noAddr && fcf.panidCompression = 1) ||
     (fcf.destAddrMode ≠ noAddr && fcf.srcAddrMode = noAddr && fcf.panidCompression = 0) ||
     (fcf.destAddrMode = longAddrMode && fcf.srcAddrMode = longAddrMode &&
       fcf.panidCompression = 0) ||
     (fcf.destAddrMode = shortAddrMode && fcf.srcAddrMode ≠ noAddr) ||
     (fcf.destAddrMode ≠ noAddr && fcf.srcAddrMode = shortAddrMode))
  else
    -- no PAN id in an acknowledgement
    (fcf.frameType ≠ ackFrame && fcf.panidCompression = 0 && fcf.srcAddrMode &&& 3 ≠ 0,
     fcf.frameType ≠ ackFrame && fcf.destAddrMode &&& 3 ≠ 0)

/-- `field_length_t`. -/
structure FieldLength where
  seqnoLen : ℕ
  destPidLen : ℕ
  destAddrLen : ℕ
  srcPidLen : ℕ
  srcAddrLen : ℕ
  auxSecLen : ℕ

/-- The bit that `field_len` sets in the frame itself: before the 2015 version
the source PAN id is left out exactly when the two are equal. -/
def compressPanid (p : Frame802154) : Frame802154 :=
  if p.fcf.frameVersion < ieee802154v2015 then
    { p with fcf.panidCompression :=
        if p.fcf.destAddrMode &&& 3 ≠ 0 ∧ p.fcf.srcAddrMode &&& 3 ≠ 0 ∧
            p.srcPid = p.destPid then 1 else 0 }
  else p

/-- `flen->aux_sec_len`. -/
def auxSecLen (cfg : Config) (p : Frame802154) : ℕ :=
  if cfg.usesAuxHeader ∧ p.fcf.securityEnabled &&& 1 ≠ 0 then
    1 + (if p.auxHdr.securityControl.frameCounterSuppression = 0 then
          if p.auxHdr.securityControl.frameCounterSize = 1 then 5 else 4
        else 0) +
      (if cfg.usesExplicitKeys then getKeyIdLen p.auxHdr.securityControl.keyIdMode else 0)
  else 0

/-- `field_len`: the frame with its compression bit set, and the lengths. -/
def fieldLen (cfg : Config) (p : Frame802154) : Frame802154 × FieldLength :=
  let p := compressPanid p
  (p,
    { seqnoLen := if p.fcf.sequenceNumberSuppression &&& 1 = 0 then 1 else 0
      destPidLen := if (hasPanid p.fcf).2 then 2 else 0
      destAddrLen := addrLen (p.fcf.destAddrMode &&& 3)
      srcPidLen := if (hasPanid p.fcf).1 then 2 else 0
      srcAddrLen := addrLen (p.fcf.srcAddrMode &&& 3)
      auxSecLen := auxSecLen cfg p })

/-- `frame802154_hdrlen`. -/
def hdrlen (cfg : Config) (p : Frame802154) : ℕ :=
  let flen := (fieldLen cfg p).2
  2 + flen.seqnoLen + flen.destPidLen + flen.destAddrLen + flen.srcPidLen + flen.srcAddrLen +
    flen.auxSecLen

/-- The field `x` of a bit mask, shifted to its place. -/
def bits (x mask shift : UInt8) : UInt8 := (x &&& mask) <<< shift

/-- `frame802154_create_fcf`. -/
def createFcf (fcf : Fcf) : List UInt8 :=
  [bits fcf.frameType 7 0 ||| bits fcf.securityEnabled 1 3 ||| bits fcf.framePending 1 4 |||
    bits fcf.ackRequired 1 5 ||| bits fcf.panidCompression 1 6,
   bits fcf.sequenceNumberSuppression 1 0 ||| bits fcf.ieListPresent 1 1 |||
    bits fcf.destAddrMode 3 2 ||| bits fcf.frameVersion 3 4 ||| bits fcf.srcAddrMode 3 6]

/-- A PAN id, its low byte first. -/
def pidBytes (pid : UInt16) : List UInt8 := [(pid &&& 0xff).toUInt8, ((pid >>> 8) &&& 0xff).toUInt8]

/-- The first `n` bytes of an address, the last one first. -/
def addrBytes (addr : Vector UInt8 8) (n : ℕ) : List UInt8 := (addr.toList.take n).reverse

/-- The byte of the security control field. -/
def scfByte (cfg : Config) (scf : Scf) : UInt8 :=
  scf.securityLevel ||| (if cfg.usesExplicitKeys then scf.keyIdMode <<< 3 else 0) |||
    (scf.frameCounterSuppression <<< 5) ||| (scf.frameCounterSize <<< 6)

/-- The frame counter. Only counters of four bytes are supported: the fifth byte
of a longer one is moved over, and not written. -/
def counterCells (aux : AuxHdr) : List (Option UInt8) :=
  if aux.securityControl.frameCounterSuppression = 0 then
    aux.frameCounter.toList.map some ++
      (if aux.securityControl.frameCounterSize = 1 then [none] else [])
  else []

/-- The key source and the key index. -/
def keyCells (cfg : Config) (aux : AuxHdr) : List (Option UInt8) :=
  if cfg.usesExplicitKeys ∧ aux.securityControl.keyIdMode ≠ 0 then
    (aux.keySource.toList.take ((aux.securityControl.keyIdMode.toNat - 1) * 4)).map some ++
      [some aux.keyIndex]
  else []

/-- The auxiliary security header. -/
def auxCells (cfg : Config) (aux : AuxHdr) : List (Option UInt8) :=
  some (scfByte cfg aux.securityControl) :: (counterCells aux ++ keyCells cfg aux)

/-- The cells that `frame802154_create` moves over, for the lengths `flen`. -/
def cells (cfg : Config) (p : Frame802154) (flen : FieldLength) : List (Option UInt8) :=
  (createFcf p.fcf).map some ++
    ((if flen.seqnoLen = 1 then [some p.seq] else []) ++
      ((if flen.destPidLen = 2 then (pidBytes p.destPid).map some else []) ++
        ((addrBytes p.destAddr flen.destAddrLen).map some ++
          ((if flen.srcPidLen = 2 then (pidBytes p.srcPid).map some else []) ++
            ((addrBytes p.srcAddr flen.srcAddrLen).map some ++
              (if flen.auxSecLen ≠ 0 then auxCells cfg p.auxHdr else []))))))

/-- `frame802154_create`: the frame with its compression bit set, and the cells;
it returns their number. -/
def create (cfg : Config) (p : Frame802154) : Frame802154 × List (Option UInt8) :=
  let (p, flen) := fieldLen cfg p
  (p, cells cfg p flen)

/-- `frame802154_parse_fcf`, on the two bytes of the field. -/
def parseFcf (b₀ b₁ : UInt8) : Fcf where
  frameType := b₀ &&& 7
  securityEnabled := (b₀ >>> 3) &&& 1
  framePending := (b₀ >>> 4) &&& 1
  ackRequired := (b₀ >>> 5) &&& 1
  panidCompression := (b₀ >>> 6) &&& 1
  sequenceNumberSuppression := b₁ &&& 1
  ieListPresent := (b₁ >>> 1) &&& 1
  destAddrMode := (b₁ >>> 2) &&& 3
  frameVersion := (b₁ >>> 4) &&& 3
  srcAddrMode := (b₁ >>> 6) &&& 3

/-- The variables of `frame802154_parse`: the position of its pointer, and the
frame that it fills in. -/
structure Cursor where
  p : ℕ
  pf : Frame802154

/-- `p[0] + (p[1] << 8)`. -/
def parsePid (data : ℕ → UInt8) (p : ℕ) : UInt16 :=
  (data p).toUInt16 + ((data (p + 1)).toUInt16 <<< 8)

/-- `linkaddr_copy` of `linkaddr_null` over the start of an address. -/
def clearLinkaddr (cfg : Config) (addr : Vector UInt8 8) : Vector UInt8 8 :=
  Vector.ofFn fun i => if i.val < cfg.linkaddrSize then 0 else addr.get i

/-- An address at the position `p`, for a mode other than `FRAME802154_NOADDR`. -/
def parseAddr (cfg : Config) (mode : UInt8) (data : ℕ → UInt8) (p : ℕ)
    (addr : Vector UInt8 8) : Vector UInt8 8 :=
  if mode = shortAddrMode then
    Vector.ofFn fun i =>
      if i.val = 0 then data (p + 1) else if i.val = 1 then data p
      else (clearLinkaddr cfg addr).get i
  else if mode = longAddrMode then Vector.ofFn fun c => data (p + (7 - c))
  else addr

/-- The sequence number. -/
def parseSeqno (fcf : Fcf) (data : ℕ → UInt8) (s : Cursor) : Cursor :=
  if fcf.sequenceNumberSuppression = 0 then
    { p := s.p + 1, pf := { s.pf with seq := data s.p } }
  else s

/-- The destination: PAN id and address. -/
def parseDest (cfg : Config) (fcf : Fcf) (data : ℕ → UInt8) (s : Cursor) : Cursor :=
  if fcf.destAddrMode ≠ 0 then
    let s : Cursor :=
      if (hasPanid fcf).2 then
        { p := s.p + 2, pf := { s.pf with destPid := parsePid data s.p } }
      else { s with pf := { s.pf with destPid := 0 } }
    { p := s.p + addrLen fcf.destAddrMode
      pf := { s.pf with
        destAddr := parseAddr cfg fcf.destAddrMode data s.p s.pf.destAddr } }
  else
    { s with pf := { s.pf with destAddr := clearLinkaddr cfg s.pf.destAddr, destPid := 0 } }

/-- The source: PAN id and address. A PAN id that only one side carries is that
of both. -/
def parseSrc (cfg : Config) (fcf : Fcf) (data : ℕ → UInt8) (s : Cursor) : Cursor :=
  if fcf.srcAddrMode ≠ 0 then
    let s : Cursor :=
      if (hasPanid fcf).1 then
        { p := s.p + 2
          pf := { s.pf with
            srcPid := parsePid data s.p
            destPid := if (hasPanid fcf).2 then s.pf.destPid else parsePid data s.p } }
      else { s with pf := { s.pf with srcPid := s.pf.destPid } }
    { p := s.p + addrLen fcf.srcAddrMode
      pf := { s.pf with srcAddr := parseAddr cfg fcf.srcAddrMode data s.p s.pf.srcAddr } }
  else
    { s with pf := { s.pf with srcAddr := clearLinkaddr cfg s.pf.srcAddr, srcPid := 0 } }

/-- `memcpy` of `n` bytes at the position `p` over the start of an array. -/
def copyBytes {m : ℕ} (data : ℕ → UInt8) (p n : ℕ) (dst : Vector UInt8 m) : Vector UInt8 m :=
  Vector.ofFn fun i => if i.val < n then data (p + i) else dst.get i

/-- The security control field; its last two fields are shifted down without a
mask. -/
def parseScf (cfg : Config) (b : UInt8) (scf : Scf) : Scf where
  securityLevel := b &&& 7
  keyIdMode := if cfg.usesExplicitKeys then (b >>> 3) &&& 3 else scf.keyIdMode
  frameCounterSuppression := b >>> 5
  frameCounterSize := b >>> 6

/-- The frame counter, at the position `p`: the position behind it, and the
counter. -/
def parseCounter (scf : Scf) (data : ℕ → UInt8) (p : ℕ) (counter : Vector UInt8 4) :
    ℕ × Vector UInt8 4 :=
  if scf.frameCounterSuppression = 0 then
    (p + 4 + (if scf.frameCounterSize = 1 then 1 else 0), copyBytes data p 4 counter)
  else (p, counter)

/-- The key source and the key index, at the position `p`: the position behind
them, and the header. -/
def parseKey (cfg : Config) (data : ℕ → UInt8) (p : ℕ) (aux : AuxHdr) : ℕ × AuxHdr :=
  if cfg.usesExplicitKeys ∧ aux.securityControl.keyIdMode ≠ 0 then
    let c := (aux.securityControl.keyIdMode.toNat - 1) * 4
    (p + c + 1,
      { aux with keySource := copyBytes data p c aux.keySource, keyIndex := data (p + c) })
  else (p, aux)

/-- The auxiliary security header. -/
def parseAux (cfg : Config) (fcf : Fcf) (data : ℕ → UInt8) (s : Cursor) : Cursor :=
  if cfg.usesAuxHeader ∧ fcf.securityEnabled ≠ 0 then
    let scf := parseScf cfg (data s.p) s.pf.auxHdr.securityControl
    let (p, counter) := parseCounter scf data (s.p + 1) s.pf.auxHdr.frameCounter
    let (p, aux) := parseKey cfg data p
      { s.pf.auxHdr with securityControl := scf, frameCounter := counter }
    { p := p, pf := { s.pf with auxHdr := aux } }
  else s

/-- `frame802154_parse`: the length of the header, or zero, and the frame. -/
def parse (cfg : Config) (data : ℕ → UInt8) (len : ℕ) (pf : Frame802154) : ℕ × Frame802154 :=
  if len < 2 then (0, pf)
  else
    let fcf := parseFcf (data 0) (data 1)
    let s := parseAux cfg fcf data <| parseSrc cfg fcf data <| parseDest cfg fcf data <|
      parseSeqno fcf data { p := 2, pf := { pf with fcf := fcf } }
    (if s.p > len then 0 else s.p, { s.pf with payloadLen := (len : ℤ) - s.p, payload := s.p })

end Frame802154

end Den2ne

import Den2ne.Frame802154.RoundTrip
import Den2ne.Reads.Scan

/-!
# What the frame parser reads

`frame802154_parse` once more, as a computation that reads the memory of the frame
(`run_scanParse`), to say which bytes it reads: all those of the header that the frame
control field and the security control field announce, before it compares the length of
that header with the length of the frame. `framer_802154.parse` uses the result only if
the header fits; but for the reserved address mode `1` the parser leaves an address as it
was, and in the framer that is a local variable nothing has set.
-/

namespace Den2ne

namespace Frame802154

open Reads

/-- A PAN id. -/
def scanPid (p : ℕ) : Scan UInt8 UInt16 :=
  .read p fun b => .read (p + 1) fun c => .done (b.toUInt16 + (c.toUInt16 <<< 8))

/-- An address, for a mode other than `FRAME802154_NOADDR`. -/
def scanAddr (cfg : Config) (mode : UInt8) (p : ℕ) (addr : Vector UInt8 8) :
    Scan UInt8 (Vector UInt8 8) :=
  if mode = shortAddrMode then
    (Scan.readRange p 2).map fun bs => Vector.ofFn fun i =>
      if i.val = 0 then bs.getD 1 0 else if i.val = 1 then bs.getD 0 0
      else (clearLinkaddr cfg addr).get i
  else if mode = longAddrMode then
    (Scan.readRange p 8).map fun bs => Vector.ofFn fun c => bs.getD (7 - c) 0
  else .done addr

/-- The sequence number. -/
def scanSeqno (fcf : Fcf) (s : Cursor) : Scan UInt8 Cursor :=
  if fcf.sequenceNumberSuppression = 0 then
    .read s.p fun b => .done { p := s.p + 1, pf := { s.pf with seq := b } }
  else .done s

/-- The PAN id of the destination. -/
def scanDestPid (fcf : Fcf) (s : Cursor) : Scan UInt8 Cursor :=
  if (hasPanid fcf).2 then
    (scanPid s.p).map fun pid => { p := s.p + 2, pf := { s.pf with destPid := pid } }
  else .done { s with pf := { s.pf with destPid := 0 } }

/-- The destination. -/
def scanDest (cfg : Config) (fcf : Fcf) (s : Cursor) : Scan UInt8 Cursor :=
  if fcf.destAddrMode ≠ 0 then
    (scanDestPid fcf s).bind fun s =>
      (scanAddr cfg fcf.destAddrMode s.p s.pf.destAddr).map fun addr =>
        { p := s.p + addrLen fcf.destAddrMode, pf := { s.pf with destAddr := addr } }
  else
    .done { s with pf := { s.pf with destAddr := clearLinkaddr cfg s.pf.destAddr, destPid := 0 } }

/-- The PAN id of the source. -/
def scanSrcPid (fcf : Fcf) (s : Cursor) : Scan UInt8 Cursor :=
  if (hasPanid fcf).1 then
    (scanPid s.p).map fun pid =>
      { p := s.p + 2
        pf := { s.pf with
          srcPid := pid
          destPid := if (hasPanid fcf).2 then s.pf.destPid else pid } }
  else .done { s with pf := { s.pf with srcPid := s.pf.destPid } }

/-- The source. -/
def scanSrc (cfg : Config) (fcf : Fcf) (s : Cursor) : Scan UInt8 Cursor :=
  if fcf.srcAddrMode ≠ 0 then
    (scanSrcPid fcf s).bind fun s =>
      (scanAddr cfg fcf.srcAddrMode s.p s.pf.srcAddr).map fun addr =>
        { p := s.p + addrLen fcf.srcAddrMode, pf := { s.pf with srcAddr := addr } }
  else
    .done { s with pf := { s.pf with srcAddr := clearLinkaddr cfg s.pf.srcAddr, srcPid := 0 } }

/-- `memcpy` of `n` bytes over the start of an array. -/
def scanCopy {m : ℕ} (p n : ℕ) (dst : Vector UInt8 m) : Scan UInt8 (Vector UInt8 m) :=
  (Scan.readRange p n).map fun bs => Vector.ofFn fun i => bs.getD i (dst.get i)

/-- The frame counter. -/
def scanCounter (scf : Scf) (p : ℕ) (counter : Vector UInt8 4) :
    Scan UInt8 (ℕ × Vector UInt8 4) :=
  if scf.frameCounterSuppression = 0 then
    (scanCopy p 4 counter).map fun counter =>
      (p + 4 + (if scf.frameCounterSize = 1 then 1 else 0), counter)
  else .done (p, counter)

/-- The key source and the key index. -/
def scanKey (cfg : Config) (p : ℕ) (aux : AuxHdr) : Scan UInt8 (ℕ × AuxHdr) :=
  if cfg.usesExplicitKeys ∧ aux.securityControl.keyIdMode ≠ 0 then
    let c := (aux.securityControl.keyIdMode.toNat - 1) * 4
    (scanCopy p c aux.keySource).bind fun keySource =>
      .read (p + c) fun b =>
        .done (p + c + 1, { aux with keySource := keySource, keyIndex := b })
  else .done (p, aux)

/-- The auxiliary security header. -/
def scanAux (cfg : Config) (fcf : Fcf) (s : Cursor) : Scan UInt8 Cursor :=
  if cfg.usesAuxHeader ∧ fcf.securityEnabled ≠ 0 then
    .read s.p fun b =>
      let scf := parseScf cfg b s.pf.auxHdr.securityControl
      (scanCounter scf (s.p + 1) s.pf.auxHdr.frameCounter).bind fun c =>
        (scanKey cfg c.1 { s.pf.auxHdr with securityControl := scf, frameCounter := c.2 }).map
          fun k => { p := k.1, pf := { s.pf with auxHdr := k.2 } }
  else .done s

/-- All fields behind the frame control field. -/
def scanFields (cfg : Config) (fcf : Fcf) (s : Cursor) : Scan UInt8 Cursor :=
  (scanSeqno fcf s).bind fun s => (scanDest cfg fcf s).bind fun s =>
    (scanSrc cfg fcf s).bind fun s => scanAux cfg fcf s

/-- `frame802154_parse`. -/
def scanParse (cfg : Config) (len : ℤ) (pf : Frame802154) : Scan UInt8 (ℕ × Frame802154) :=
  if len < 2 then .done (0, pf)
  else
    .read 0 fun b₀ => .read 1 fun b₁ =>
      let fcf := parseFcf b₀ b₁
      (scanFields cfg fcf { p := 2, pf := { pf with fcf := fcf } }).map fun s =>
        (if len < s.p then 0 else s.p, { s.pf with payloadLen := len - s.p, payload := s.p })

/-! ## The scan is the parser -/

variable {cfg : Config} {fcf : Fcf} {data : ℕ → UInt8}

theorem getD_load {p n i : ℕ} (d : UInt8) (hi : i < n) :
    (Memory.load data p n).getD i d = data (p + i) := by
  rw [List.getD_eq_getElem?_getD, Memory.getElem?_load hi]
  rfl

@[simp] theorem run_scanPid (data : ℕ → UInt8) (p : ℕ) :
    (scanPid p).run data = parsePid data p := rfl

@[simp] theorem run_scanAddr (cfg : Config) (mode : UInt8) (data : ℕ → UInt8) (p : ℕ)
    (addr : Vector UInt8 8) :
    (scanAddr cfg mode p addr).run data = parseAddr cfg mode data p addr := by
  unfold scanAddr parseAddr
  split
  · rw [Scan.run_map, Scan.run_readRange, getD_load 0 (by decide), getD_load 0 (by decide)]
    rfl
  · split
    · rw [Scan.run_map, Scan.run_readRange]
      exact congrArg Vector.ofFn (funext fun c => getD_load 0 (by omega))
    · rfl

@[simp] theorem run_scanSeqno (fcf : Fcf) (data : ℕ → UInt8) (s : Cursor) :
    (scanSeqno fcf s).run data = parseSeqno fcf data s := by
  unfold scanSeqno parseSeqno
  split <;> rfl

@[simp] theorem run_scanDest (cfg : Config) (fcf : Fcf) (data : ℕ → UInt8) (s : Cursor) :
    (scanDest cfg fcf s).run data = parseDest cfg fcf data s := by
  unfold scanDest parseDest scanDestPid
  split
  · rw [Scan.run_bind, Scan.run_map, run_scanAddr]
    split <;> rfl
  · rfl

@[simp] theorem run_scanSrc (cfg : Config) (fcf : Fcf) (data : ℕ → UInt8) (s : Cursor) :
    (scanSrc cfg fcf s).run data = parseSrc cfg fcf data s := by
  unfold scanSrc parseSrc scanSrcPid
  split
  · rw [Scan.run_bind, Scan.run_map, run_scanAddr]
    split <;> rfl
  · rfl

@[simp] theorem run_scanCopy {m : ℕ} (data : ℕ → UInt8) (p n : ℕ) (dst : Vector UInt8 m) :
    (scanCopy p n dst).run data = copyBytes data p n dst := by
  rw [scanCopy, Scan.run_map, Scan.run_readRange, copyBytes]
  refine congrArg Vector.ofFn (funext fun i => ?_)
  split
  · rename_i hi
    exact getD_load _ hi
  · rename_i hi
    rw [List.getD_eq_getElem?_getD, List.getElem?_eq_none (by rw [Memory.length_load]; omega)]
    rfl

@[simp] theorem run_scanCounter (scf : Scf) (data : ℕ → UInt8) (p : ℕ)
    (counter : Vector UInt8 4) :
    (scanCounter scf p counter).run data = parseCounter scf data p counter := by
  unfold scanCounter parseCounter
  split
  · rw [Scan.run_map, run_scanCopy]
  · rfl

@[simp] theorem run_scanKey (cfg : Config) (data : ℕ → UInt8) (p : ℕ) (aux : AuxHdr) :
    (scanKey cfg p aux).run data = parseKey cfg data p aux := by
  unfold scanKey parseKey
  split
  · rw [Scan.run_bind, run_scanCopy]
    rfl
  · rfl

@[simp] theorem run_scanAux (cfg : Config) (fcf : Fcf) (data : ℕ → UInt8) (s : Cursor) :
    (scanAux cfg fcf s).run data = parseAux cfg fcf data s := by
  unfold scanAux parseAux
  split
  · rw [Scan.run, Scan.run_bind, Scan.run_map, run_scanCounter, run_scanKey]
  · rfl

theorem run_scanFields (cfg : Config) (fcf : Fcf) (data : ℕ → UInt8) (pf : Frame802154) :
    (scanFields cfg fcf { p := 2, pf := { pf with fcf := fcf } }).run data =
      parseAux cfg fcf data (parseFields cfg fcf data pf) := by
  rw [scanFields, Scan.run_bind, Scan.run_bind, Scan.run_bind, run_scanSeqno, run_scanDest,
    run_scanSrc, run_scanAux]
  rfl

theorem run_scanParse (cfg : Config) (data : ℕ → UInt8) (len : ℕ) (pf : Frame802154) :
    (scanParse cfg len pf).run data = parse cfg data len pf := by
  unfold scanParse parse
  by_cases hlen : len < 2
  · rw [if_pos hlen, if_pos (by omega)]
    rfl
  · rw [if_neg hlen, if_neg (by omega), Scan.run, Scan.run, Scan.run_map, run_scanFields]
    simp only [Int.ofNat_lt]
    rfl

/-! ## What is read -/

theorem spans_scanPid (p : ℕ) : Scan.Spans data p (p + 2) (scanPid p) :=
  Scan.Spans.read (Scan.Spans.read (Scan.spans_done _))

theorem spans_scanAddr (mode : UInt8) (p : ℕ) (addr : Vector UInt8 8) :
    Scan.Spans data p (p + addrLen mode) (scanAddr cfg mode p addr) := by
  unfold scanAddr addrLen
  split
  · exact (Scan.spans_readRange data p 2).map _
  · split
    · exact (Scan.spans_readRange data p 8).map _
    · exact Scan.spans_done addr

theorem spans_scanSeqno (s : Cursor) :
    Scan.Spans data s.p ((scanSeqno fcf s).run data).p (scanSeqno fcf s) := by
  unfold scanSeqno
  split
  · exact Scan.Spans.read (Scan.spans_done _)
  · exact Scan.spans_done _

theorem spans_scanDestPid (s : Cursor) :
    Scan.Spans data s.p ((scanDestPid fcf s).run data).p (scanDestPid fcf s) := by
  unfold scanDestPid
  split
  · rw [Scan.run_map]
    exact (spans_scanPid s.p).map _
  · exact Scan.spans_done _

theorem spans_scanDest (s : Cursor) :
    Scan.Spans data s.p ((scanDest cfg fcf s).run data).p (scanDest cfg fcf s) := by
  unfold scanDest
  split
  · rw [Scan.run_bind, Scan.run_map]
    exact (spans_scanDestPid s).bind ((spans_scanAddr _ _ _).map _)
  · exact Scan.spans_done _

theorem spans_scanSrcPid (s : Cursor) :
    Scan.Spans data s.p ((scanSrcPid fcf s).run data).p (scanSrcPid fcf s) := by
  unfold scanSrcPid
  split
  · rw [Scan.run_map]
    exact (spans_scanPid s.p).map _
  · exact Scan.spans_done _

theorem spans_scanSrc (s : Cursor) :
    Scan.Spans data s.p ((scanSrc cfg fcf s).run data).p (scanSrc cfg fcf s) := by
  unfold scanSrc
  split
  · rw [Scan.run_bind, Scan.run_map]
    exact (spans_scanSrcPid s).bind ((spans_scanAddr _ _ _).map _)
  · exact Scan.spans_done _

/-- The fifth byte of a counter, which would not be read, is never there. -/
theorem spans_scanCounter (b : UInt8) (scf : Scf) (p : ℕ) (counter : Vector UInt8 4) :
    Scan.Spans data p ((scanCounter (parseScf cfg b scf) p counter).run data).1
      (scanCounter (parseScf cfg b scf) p counter) := by
  unfold scanCounter
  split
  · rename_i hcounter
    have hsize : (parseScf cfg b scf).frameCounterSize ≠ 1 := shiftRight_six_ne_one hcounter
    rw [if_neg hsize, Scan.run_map]
    exact ((Scan.spans_readRange data p 4).map _).map _
  · exact Scan.spans_done _

theorem spans_scanKey (p : ℕ) (aux : AuxHdr) :
    Scan.Spans data p ((scanKey cfg p aux).run data).1 (scanKey cfg p aux) := by
  unfold scanKey
  split
  · dsimp only
    rw [Scan.run_bind]
    exact ((Scan.spans_readRange data p _).map _).bind (Scan.Spans.read (Scan.spans_done _))
  · exact Scan.spans_done _

theorem spans_scanAux (s : Cursor) :
    Scan.Spans data s.p ((scanAux cfg fcf s).run data).p (scanAux cfg fcf s) := by
  unfold scanAux
  split
  · rw [Scan.run, Scan.run_bind, Scan.run_map]
    exact Scan.Spans.read ((spans_scanCounter (data s.p) _ _ _).bind ((spans_scanKey _ _).map _))
  · exact Scan.spans_done _

variable (cfg fcf data) in
theorem spans_scanFields (s : Cursor) :
    Scan.Spans data s.p ((scanFields cfg fcf s).run data).p (scanFields cfg fcf s) := by
  rw [scanFields, Scan.run_bind, Scan.run_bind, Scan.run_bind]
  exact (spans_scanSeqno s).bind ((spans_scanDest _).bind ((spans_scanSrc _).bind
    (spans_scanAux _)))

/-! ## The announced header -/

/-- The length of the header up to the auxiliary security header, as the frame control
field announces it. -/
def fieldsLen (fcf : Fcf) : ℕ :=
  2 + (if fcf.sequenceNumberSuppression = 0 then 1 else 0) +
    (if fcf.destAddrMode ≠ 0 then
      (if (hasPanid fcf).2 then 2 else 0) + addrLen fcf.destAddrMode else 0) +
    (if fcf.srcAddrMode ≠ 0 then
      (if (hasPanid fcf).1 then 2 else 0) + addrLen fcf.srcAddrMode else 0)

/-- The length of the auxiliary security header, as the security control field `b`
announces it. -/
def auxLen (cfg : Config) (b : UInt8) : ℕ :=
  1 + (if b >>> 5 = 0 then 4 else 0) +
    (if cfg.usesExplicitKeys ∧ (b >>> 3) &&& 3 ≠ 0 then (((b >>> 3) &&& 3).toNat - 1) * 4 + 1
      else 0)

/-- The length of the header that the bytes of a frame announce. -/
def announcedLen (cfg : Config) (data : ℕ → UInt8) : ℕ :=
  let fcf := parseFcf (data 0) (data 1)
  fieldsLen fcf +
    if cfg.usesAuxHeader ∧ fcf.securityEnabled ≠ 0 then auxLen cfg (data (fieldsLen fcf)) else 0

theorem parseSeqno_p (fcf : Fcf) (data : ℕ → UInt8) (s : Cursor) :
    (parseSeqno fcf data s).p = s.p + if fcf.sequenceNumberSuppression = 0 then 1 else 0 := by
  unfold parseSeqno
  split <;> rfl

theorem parseDest_p (cfg : Config) (fcf : Fcf) (data : ℕ → UInt8) (s : Cursor) :
    (parseDest cfg fcf data s).p = s.p + if fcf.destAddrMode ≠ 0 then
      (if (hasPanid fcf).2 then 2 else 0) + addrLen fcf.destAddrMode else 0 := by
  unfold parseDest
  split
  · split
    · exact Nat.add_assoc _ _ _
    · exact congrArg (s.p + ·) (Nat.zero_add _).symm
  · rfl

theorem parseSrc_p (cfg : Config) (fcf : Fcf) (data : ℕ → UInt8) (s : Cursor) :
    (parseSrc cfg fcf data s).p = s.p + if fcf.srcAddrMode ≠ 0 then
      (if (hasPanid fcf).1 then 2 else 0) + addrLen fcf.srcAddrMode else 0 := by
  unfold parseSrc
  split
  · split
    · exact Nat.add_assoc _ _ _
    · exact congrArg (s.p + ·) (Nat.zero_add _).symm
  · rfl

theorem parseFields_p (cfg : Config) (fcf : Fcf) (data : ℕ → UInt8) (pf : Frame802154) :
    (parseFields cfg fcf data pf).p = fieldsLen fcf := by
  rw [parseFields, parseSrc_p, parseDest_p, parseSeqno_p]
  rfl

theorem parseAux_p_eq (cfg : Config) (fcf : Fcf) (data : ℕ → UInt8) (s : Cursor) :
    (parseAux cfg fcf data s).p =
      s.p + if cfg.usesAuxHeader ∧ fcf.securityEnabled ≠ 0 then auxLen cfg (data s.p) else 0 := by
  unfold parseAux
  split
  · have hkey : ∀ (p : ℕ) (aux : AuxHdr), (parseKey cfg data p aux).1 = p +
        if cfg.usesExplicitKeys ∧ aux.securityControl.keyIdMode ≠ 0 then
          (aux.securityControl.keyIdMode.toNat - 1) * 4 + 1 else 0 := by
      intro p aux
      unfold parseKey
      split <;> rfl
    have hcounter : ∀ (scf : Scf) (counter : Vector UInt8 4),
        (parseCounter (parseScf cfg (data s.p) scf) data (s.p + 1) counter).1 =
          s.p + 1 + if data s.p >>> 5 = 0 then 4 else 0 := by
      intro scf counter
      unfold parseCounter
      by_cases h : (parseScf cfg (data s.p) scf).frameCounterSuppression = 0
      · have hsize : (parseScf cfg (data s.p) scf).frameCounterSize ≠ 1 := shiftRight_six_ne_one h
        rw [if_pos h, if_pos (show data s.p >>> 5 = 0 from h), if_neg hsize]
      · rw [if_neg h, if_neg (show ¬ data s.p >>> 5 = 0 from h)]
    dsimp only
    rw [hkey, hcounter, auxLen]
    have hmode : ∀ scf : Scf, cfg.usesExplicitKeys = true →
        (parseScf cfg (data s.p) scf).keyIdMode = (data s.p >>> 3) &&& 3 := fun scf h => if_pos h
    by_cases hexplicit : cfg.usesExplicitKeys = true
    · rw [hmode _ hexplicit]
      omega
    · have hoff : ∀ mode : UInt8, ¬ (cfg.usesExplicitKeys = true ∧ mode ≠ 0) :=
        fun mode h => hexplicit h.1
      rw [if_neg (hoff _), if_neg (hoff _)]
      omega
  · rfl

/-- The cursor of the parser ends at the announced length. -/
theorem parse_cursor (cfg : Config) (data : ℕ → UInt8) (pf : Frame802154) :
    (parseAux cfg (parseFcf (data 0) (data 1)) data
      (parseFields cfg (parseFcf (data 0) (data 1)) data pf)).p = announcedLen cfg data := by
  rw [parseAux_p_eq, parseFields_p]
  rfl

theorem two_le_announcedLen (cfg : Config) (data : ℕ → UInt8) : 2 ≤ announcedLen cfg data := by
  have hfields : ∀ fcf, 2 ≤ fieldsLen fcf := fun fcf => by
    unfold fieldsLen
    omega
  exact Nat.le_add_right_of_le (hfields _)

/-- The parser reads the bytes of the announced header. -/
theorem spans_scanParse (cfg : Config) (data : ℕ → UInt8) {len : ℤ} (hlen : 2 ≤ len)
    (pf : Frame802154) : Scan.Spans data 0 (announcedLen cfg data) (scanParse cfg len pf) := by
  have hfields := spans_scanFields cfg (parseFcf (data 0) (data 1)) data
    { p := 2, pf := { pf with fcf := parseFcf (data 0) (data 1) } }
  rw [run_scanFields, parse_cursor] at hfields
  rw [scanParse, if_neg (by omega)]
  exact Scan.Spans.read (Scan.Spans.read (hfields.map _))

/-- All that the parser reads is in the frame exactly if the announced header is. -/
theorem reads_inside_iff (cfg : Config) (data : ℕ → UInt8) (len : ℤ) (pf : Frame802154) :
    (∀ i ∈ (scanParse cfg len pf).reads data, (i : ℤ) < len) ↔
      len < 2 ∨ (announcedLen cfg data : ℤ) ≤ len := by
  by_cases hlen : len < 2
  · rw [scanParse, if_pos hlen]
    exact ⟨fun _ => .inl hlen, fun _ i hi => by cases hi⟩
  · obtain ⟨n, rfl⟩ := Int.eq_ofNat_of_zero_le (by omega : 0 ≤ len)
    have hspans := spans_scanParse cfg data (by omega : (2 : ℤ) ≤ n) pf
    have hpos := two_le_announcedLen cfg data
    have hiff := hspans.forall_lt_iff (by omega) (n := n)
    simp only [Int.ofNat_lt, Int.ofNat_le]
    rw [hiff]
    exact ⟨.inr, fun h => h.resolve_left (by omega)⟩

/-- A length other than zero is that of the announced header, and this is in the frame. -/
theorem announcedLen_of_ne_zero (cfg : Config) (data : ℕ → UInt8) (len : ℤ) (pf : Frame802154)
    (h : ((scanParse cfg len pf).run data).1 ≠ 0) :
    ((scanParse cfg len pf).run data).1 = announcedLen cfg data ∧
      (announcedLen cfg data : ℤ) ≤ len := by
  by_cases hlen : len < 2
  · rw [scanParse, if_pos hlen] at h
    exact absurd rfl h
  · rw [scanParse, if_neg hlen, Scan.run, Scan.run, Scan.run_map, run_scanFields,
      parse_cursor] at h ⊢
    dsimp only at h ⊢
    split at h
    · exact absurd rfl h
    · rename_i hle
      rw [if_neg hle]
      exact ⟨rfl, by omega⟩

end Frame802154

end Den2ne
